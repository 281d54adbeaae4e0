import ModelCar.Proofs.Control.Deadline
import ModelCar.Proofs.Control.Setup

/-!
# What telemetry says

Only the report of a turn is sent, after the failsafe has had its say and the actuators
have been driven.  So it tells of the sources that the failsafe was updated with in this
turn, of the failsafe as this update has left it, and of the outputs as the turn leaves
them; and the frames of a run are numbered one after the other, since nothing else
changes the number of the next frame.
-/

namespace ModelCar

namespace Effect

/-- An effect that sends telemetry. -/
def Sends : Effect → Prop
  | .sendFrame _ => True
  | .sendSnapshot _ => True
  | _ => False

instance : (e : Effect) → Decidable e.Sends
  | .sendFrame _ => .isTrue trivial
  | .sendSnapshot _ => .isTrue trivial
  | .readSensor => .isFalse id
  | .drive _ _ => .isFalse id
  | .neutral => .isFalse id
  | .failsafeChanged _ => .isFalse id
  | .storeCalibration _ _ => .isFalse id
  | .storeTuning _ _ => .isFalse id
  | .answer _ _ => .isFalse id
  | .note _ => .isFalse id

/-- The frame that an effect sends. -/
def frame? : Effect → Option Link.Telemetry
  | .sendFrame frame => some frame
  | _ => none

end Effect

/-- Those of some effects that send telemetry, in order. -/
def sent (effects : List Effect) : List Effect :=
  effects.filter fun e => e.Sends

/-- The frames that some effects send, in order. -/
def frames (effects : List Effect) : List Link.Telemetry :=
  effects.filterMap Effect.frame?

@[simp] theorem sent_append (effects more : List Effect) :
  sent (effects ++ more) = sent effects ++ sent more
  := List.filter_append ..

@[simp] theorem sent_nil :
  sent [] = []
  := rfl

@[simp] theorem sent_note (n : Notice) (effects : List Effect) :
  sent (.note n :: effects) = sent effects
  := rfl

@[simp] theorem sent_answer (ticket : Nat) (a : Answer) (effects : List Effect) :
  sent (.answer ticket a :: effects) = sent effects
  := rfl

theorem mem_sent {effects : List Effect} {e : Effect} (he : e.Sends) :
  e ∈ sent effects ↔ e ∈ effects
  := by simp [sent, he]

theorem frames_append (effects more : List Effect) :
  frames (effects ++ more) = frames effects ++ frames more
  := List.filterMap_append ..

/-- Frames are only among what is sent. -/
theorem frames_sent (effects : List Effect) :
  frames (sent effects) = frames effects
  := by
  induction effects with
  | nil => rfl
  | cons e effects ih =>
      rw [frames, sent, List.filter_cons]
      cases e with
      | sendFrame frame => exact congrArg (frame :: ·) ih
      | _ => exact ih

theorem frames_of_unsent {effects : List Effect} (h : sent effects = []) :
  frames effects = []
  := by
  rw [← frames_sent, h]
  rfl

/-- What a snapshot shows of the links and of the actuators. -/
theorem Snapshot.slots_toJson (s : Snapshot) :
  s.toJson.slots ["link", "act"] =
    some [some (.ofFields [("rc_ok", .bool s.status.radioOk),
        ("wifi_ok", .bool s.status.wirelessOk),
        ("failsafe", .bool s.status.failsafeActive)]),
      some (.ofFields (driveFields s.throttle s.steering))]
  := by
  obtain ⟨status, motion, throttle, steering⟩ := s
  cases motion with
  | none => rfl
  | some m => rfl

namespace Control

variable (c : Control)

/-! ### Requests send nothing -/

@[simp] theorem sent_use (t : Tuning Float32) :
  sent (c.use t).2 = []
  := by
  simp only [use]
  split
  · rfl
  · rfl

/-- A change of the tuning sends nothing. -/
theorem Retuned.sent_eq {c : Control} {t : Tuning Float32} {keep : Bool}
    {fault : Option Fault} {result : Except Tuning.Failure (Tuning Float32)} {c' : Control}
    {effects : List Effect} (h : Retuned c t keep fault result c' effects) :
  sent effects = []
  := by
  cases h with
  | refused => rfl
  | used => exact sent_use c _
  | stored =>
      rw [sent_append, sent_use]
      rfl
  | notStored =>
      rw [sent_append, sent_use]
      rfl

theorem sent_calibrate (full : Bool) :
  sent (c.calibrate full).2 = []
  := by
  simp only [calibrate]
  split
  · split
    · rfl
    · rfl
  · rfl

theorem sent_calibrateForward :
  sent c.calibrateForward.2.2 = []
  := by
  unfold calibrateForward
  split
  · rfl
  · dsimp only
    split
    · rfl
    · rfl

theorem sent_setForward (v : Vector3 Float32) (fault : Option Fault) :
  sent (c.setForward v fault).2.2 = []
  := rfl

theorem sent_handle (d : Delivery) :
  sent (c.handle d).2 = []
  := by
  obtain ⟨⟨ticket, request⟩, fault⟩ := d
  cases request with
  | calibrate full => exact sent_calibrate c full
  | calibrateForward =>
      show sent (c.calibrateForward.2.2 ++ [_]) = []
      rw [sent_append, sent_calibrateForward]
      rfl
  | setForward v => rfl
  | retune t keep =>
      show sent ((c.retune t keep fault).2.2 ++ [_]) = []
      rw [sent_append, (retune_retuned c t keep fault).sent_eq]
      rfl
  | query => rfl

theorem sent_serve (ds : List Delivery) :
  sent (c.serve ds).2 = []
  := by
  induction ds generalizing c with
  | nil => rfl
  | cons d ds ih => rw [serve_cons, sent_append, sent_handle, ih, List.nil_append]

/-! ### A turn -/

theorem sent_sense (s : Surroundings) :
  sent (c.sense s).2 = []
  := by
  simp only [sense]
  split
  · rfl
  · rfl

theorem sent_noteCalibration (fault : Option Fault) :
  sent (c.noteCalibration fault).2 = []
  := by
  simp only [noteCalibration]
  split
  · rfl
  · split
    · rfl
    · rfl
    · rfl

theorem sent_guard (now : Millis) (target : Controls) :
  sent (c.guard now target).2.2 = []
  := by
  apply List.filter_eq_nil_iff.mpr
  intro e he
  obtain ⟨n, rfl⟩ | ⟨active, rfl⟩ | rfl := c.mem_guard he
  · exact of_decide_eq_false rfl
  · exact of_decide_eq_false rfl
  · exact of_decide_eq_false rfl

theorem sent_drive (now : Millis) (target : Controls) :
  sent (c.drive now target).2 = []
  := by
  unfold drive
  split
  · rfl
  · rfl

theorem sent_diagnose (now : Millis) (busy : UInt64) :
  sent (c.diagnose now busy).2 = []
  := by
  simp only [diagnose]
  split
  · rfl
  · split
    · rfl
    · rfl

/-- The frame of a report. -/
def frameOf : Link.Telemetry :=
  .ofSample c.reporter.next c.linkStatus c.inertial.sample

/-- The snapshot of a report. -/
def snapshotOf : Snapshot :=
  ⟨c.linkStatus, Snapshot.Motion.of? c.inertial, c.actuators.throttle, c.actuators.steering⟩

/-- What a report sends, if it is time for one. -/
def reportOf (clients : Nat) : List Effect :=
  .sendFrame c.frameOf :: if clients = 0 then [] else [.sendSnapshot c.snapshotOf]

/-- A report is sent and counted, or it is not time for one. -/
theorem report_cases (now : Millis) (clients : Nat) :
  (c.report now clients).2 = [] ∧
      (c.report now clients).1.reporter.next = c.reporter.next ∨
    (c.report now clients).2 = c.reportOf clients ∧
      (c.report now clients).1.reporter.next = c.reporter.next + 1
  := by
  simp only [report, Reporter.update]
  split
  · left
    exact ⟨rfl, rfl⟩
  · right
    constructor
    · rw [reportOf]
      by_cases hn : clients = 0
      · rw [if_pos hn, if_pos hn]
        rfl
      · rw [if_neg hn, if_neg hn]
        rfl
    · rfl

theorem sent_reportOf (clients : Nat) :
  sent (c.reportOf clients) = c.reportOf clients
  := by
  rw [reportOf]
  split
  · rfl
  · rfl

theorem frames_reportOf (clients : Nat) :
  frames (c.reportOf clients) = [c.frameOf]
  := by
  rw [reportOf]
  split
  · rfl
  · rfl

variable (s : Surroundings)

/-- All that a turn sends is its report. -/
theorem sent_turn :
  sent (c.turn s).2 = sent ((c.driven s).report s.now s.clients).2
  := by
  rw [turn_eq]
  simp only [sent_append, sent_sense, sent_serve, sent_noteCalibration, sent_guard,
    sent_drive, sent_diagnose, List.nil_append, List.append_nil]

/-- Up to its report a turn does not touch the reporter. -/
theorem driven_reporter :
  (c.driven s).reporter = c.reporter
  := by
  rw [driven, drive_eq, guarded, guard_eq]
  show (c.noted s).reporter = _
  rw [noted_eq]

/-- The links are reported as the failsafe was updated with them, and the failsafe as that
has left it. -/
theorem driven_linkStatus :
  (c.driven s).linkStatus =
    ⟨(c.stabilized s).radio.isActive, (c.stabilized s).wireless.isActive,
      (c.turn s).1.failsafe.isActive⟩
  := by
  rw [turn_frame, driven, drive_eq, guarded, guard_eq]
  rfl

theorem driven_actuators :
  (c.driven s).actuators = (c.turn s).1.actuators
  := by rw [turn_frame]

/-- A turn sends a report and counts it, or it does neither. -/
theorem turn_report_cases :
  sent (c.turn s).2 = [] ∧ (c.turn s).1.reporter.next = c.reporter.next ∨
    sent (c.turn s).2 = (c.driven s).reportOf s.clients ∧
      (c.turn s).1.reporter.next = c.reporter.next + 1
  := by
  have hnext : (c.turn s).1.reporter.next =
      ((c.driven s).report s.now s.clients).1.reporter.next := by
    rw [turn_eq, diagnose_eq]
    rfl
  rw [sent_turn, hnext, ← driven_reporter c s]
  obtain ⟨h, hn⟩ | ⟨h, hn⟩ := (c.driven s).report_cases s.now s.clients
  · left
    rw [h]
    exact ⟨rfl, hn⟩
  · right
    rw [h]
    exact ⟨sent_reportOf _ _, hn⟩

/-! ### The truth of a turn -/

variable {c s}

theorem mem_reportOf_of_mem_turn {e : Effect} (hs : e.Sends) (he : e ∈ (c.turn s).2) :
  e ∈ (c.driven s).reportOf s.clients
  := by
  rw [← mem_sent hs] at he
  obtain ⟨h, -⟩ | ⟨h, -⟩ := c.turn_report_cases s
  · rw [h] at he
    cases he
  · rwa [h] at he

theorem sendFrame_mem_reportOf {clients : Nat} {frame : Link.Telemetry} :
  .sendFrame frame ∈ c.reportOf clients ↔ frame = c.frameOf
  := by
  rw [reportOf]
  split
  · simp
  · simp

theorem sendSnapshot_mem_reportOf {clients : Nat} {snapshot : Snapshot} :
  .sendSnapshot snapshot ∈ c.reportOf clients ↔ clients ≠ 0 ∧ snapshot = c.snapshotOf
  := by
  rw [reportOf]
  split
  · rename_i h
    simp [h]
  · rename_i h
    simp [h]

/-- A turn sends both parts of its report or none. -/
theorem mem_turn_of_mem_reportOf {e e' : Effect} (hs : e.Sends) (he : e ∈ (c.turn s).2)
    (hs' : e'.Sends) (he' : e' ∈ (c.driven s).reportOf s.clients) :
  e' ∈ (c.turn s).2
  := by
  rw [← mem_sent hs] at he
  rw [← mem_sent hs']
  obtain ⟨h, -⟩ | ⟨h, -⟩ := c.turn_report_cases s
  · rw [h] at he
    cases he
  · rwa [h]

/-- What a turn sends is true of this turn.  Its flags are those that the failsafe is
updated with, and whether this leaves the failsafe active; a snapshot goes with every
frame while there are clients, and shows the outputs at the end of the turn; so none
shows an active failsafe and an output that is not at rest. -/
structure Truthful (c : Control) (s : Surroundings) : Prop where
  failsafe : (c.turn s).1.failsafe =
    c.failsafe.update s.now (c.stabilized s).radio.isActive (c.stabilized s).wireless.isActive
  frame : ∀ frame, .sendFrame frame ∈ (c.turn s).2 →
    frame.status = ⟨(c.stabilized s).radio.isActive, (c.stabilized s).wireless.isActive,
      (c.turn s).1.failsafe.state = .active⟩
  snapshot_iff : (∃ snapshot, .sendSnapshot snapshot ∈ (c.turn s).2) ↔
    (∃ frame, .sendFrame frame ∈ (c.turn s).2) ∧ s.clients ≠ 0
  snapshot : ∀ snapshot, .sendSnapshot snapshot ∈ (c.turn s).2 →
    snapshot.status = ⟨(c.stabilized s).radio.isActive, (c.stabilized s).wireless.isActive,
        (c.turn s).1.failsafe.state = .active⟩ ∧
      snapshot.throttle = (c.turn s).1.actuators.throttle ∧
      snapshot.steering = (c.turn s).1.actuators.steering
  shown : ∀ snapshot, .sendSnapshot snapshot ∈ (c.turn s).2 →
    snapshot.toJson.slots ["link", "act"] =
      some [some (.ofFields [("rc_ok", .bool snapshot.status.radioOk),
          ("wifi_ok", .bool snapshot.status.wirelessOk),
          ("failsafe", .bool snapshot.status.failsafeActive)]),
        some (.ofFields (driveFields snapshot.throttle snapshot.steering))]
  rest : ∀ snapshot, .sendSnapshot snapshot ∈ (c.turn s).2 → snapshot.status.failsafeActive →
    snapshot.throttle = 0.0 ∧ snapshot.steering = 0.0

/-- At speeds that are not below zero, every turn is truthful. -/
theorem truthful (hthrottle : ¬ c.settings.throttleSpeed < 0.0)
    (hsteering : ¬ c.settings.steeringSpeed < 0.0) :
  c.Truthful s
  := by
  constructor
  · rw [turn_frame, guarded, guard_eq]
    show (c.noted s).failsafe.update _ _ _ = _
    rw [noted_eq]
  · intro frame h
    obtain rfl := sendFrame_mem_reportOf.mp (mem_reportOf_of_mem_turn trivial h)
    exact driven_linkStatus c s
  · constructor
    · rintro ⟨snapshot, h⟩
      obtain ⟨hn, -⟩ := sendSnapshot_mem_reportOf.mp (mem_reportOf_of_mem_turn trivial h)
      refine ⟨⟨(c.driven s).frameOf, ?_⟩, hn⟩
      apply mem_turn_of_mem_reportOf (e := .sendSnapshot snapshot) trivial h
      · trivial
      · exact sendFrame_mem_reportOf.mpr rfl
    · rintro ⟨⟨frame, h⟩, hn⟩
      use (c.driven s).snapshotOf
      apply mem_turn_of_mem_reportOf (e := .sendFrame frame) trivial h
      · trivial
      · exact sendSnapshot_mem_reportOf.mpr ⟨hn, rfl⟩
  · intro snapshot h
    obtain ⟨-, rfl⟩ := sendSnapshot_mem_reportOf.mp (mem_reportOf_of_mem_turn trivial h)
    rw [snapshotOf, driven_linkStatus, driven_actuators]
    exact ⟨rfl, rfl, rfl⟩
  · intro snapshot _
    exact snapshot.slots_toJson
  · intro snapshot h hf
    obtain ⟨-, rfl⟩ := sendSnapshot_mem_reportOf.mp (mem_reportOf_of_mem_turn trivial h)
    rw [snapshotOf, driven_linkStatus] at hf
    rw [snapshotOf, driven_actuators]
    exact (atRest_of_failsafe_active hthrottle hsteering hf).1

/-! ### The numbers of the frames -/

/-- The frames that were sent have the numbers from zero on, modulo `2 ^ 16`, and the next
one will go on with them. -/
structure Numbered (c : Control) (frames : List Link.Telemetry) : Prop where
  seq : frames.map (·.seq) = (List.range frames.length).map UInt16.ofNat
  next : c.reporter.next = .ofNat frames.length

/-- What leaves the reporter alone and sends nothing makes no difference. -/
theorem Numbered.congr {sent : List Link.Telemetry} (h : c.Numbered sent) {c' : Control}
    (hr : c'.reporter = c.reporter) :
  c'.Numbered sent
  := by
  use h.seq
  rw [hr, h.next]

theorem Numbered.turn {frames : List Link.Telemetry} (h : c.Numbered frames)
    (s : Surroundings) :
  (c.turn s).1.Numbered (frames ++ ModelCar.frames (c.turn s).2)
  := by
  obtain ⟨hs, hn⟩ | ⟨hs, hn⟩ := c.turn_report_cases s
  · rw [frames_of_unsent hs, List.append_nil]
    use h.seq
    rw [hn, h.next]
  · rw [← frames_sent, hs, frames_reportOf, frameOf, driven_reporter]
    constructor
    · rw [List.map_append, List.length_append, List.length_singleton, List.range_succ,
        List.map_append, h.seq, List.map_singleton, List.map_singleton]
      show _ ++ [c.reporter.next] = _
      rw [h.next]
    · rw [hn, h.next, List.length_append, List.length_singleton, UInt16.ofNat_add]
      rfl

/-! ### A start -/

theorem sent_startRadio (fault : Option Fault) :
  sent (c.startRadio fault).2 = []
  := by cases fault <;> rfl

theorem sent_startInertial (u : Startup) :
  sent (c.startInertial u).2 = []
  := by
  unfold startInertial
  split
  · cases u.calibration with
    | none => rfl
    | some data =>
        simp only [loadCalibration]
        split
        · rfl
        · rfl
  · rfl

theorem sent_startCalibration :
  sent c.startCalibration.2 = []
  := by
  simp only [startCalibration]
  split
  · rfl
  · rfl

theorem sent_launch (u : Startup) :
  sent (c.launch u).2 = []
  := by
  rw [launch_eq]
  simp only [sent_append, sent_note, sent_startRadio, sent_startInertial, sent_use,
    sent_startCalibration, List.nil_append]
  rfl

/-- A start leaves settings and reporter as they are, and sends nothing. -/
theorem start_unreported (u : Startup) :
  (c.start u).2.1.settings = c.settings ∧ (c.start u).2.1.reporter = c.reporter ∧
    sent (c.start u).2.2 = []
  := by
  unfold start
  split
  · exact ⟨rfl, rfl, rfl⟩
  · split
    · exact ⟨rfl, rfl, rfl⟩
    · exact ⟨rfl, rfl, rfl⟩
    · rw [launch_frame, sent_launch]
      exact ⟨rfl, rfl, rfl⟩

end Control

/-! ### Runs -/

namespace Car

/-- Whatever is not a turn or a renewal leaves settings and reporter as they are, and sends
nothing. -/
theorem perform_unreported (car : Car) {op : Operation} (hr : ∀ u, op ≠ .renew u)
    (ht : ∀ s, op ≠ .turn s) :
  (car.perform op).1.settings = car.control.settings ∧
    (car.perform op).1.reporter = car.control.reporter ∧ sent (car.perform op).2 = []
  := by
  cases op with
  | renew u => cases hr u rfl
  | start s => exact Control.start_unreported _
  | turn s => cases ht s rfl
  | calibrateForward =>
      have h := Control.calibrateForward_response car.control 0 none
      rw [perform, h.eq_withMotion]
      exact ⟨rfl, rfl, Control.sent_calibrateForward _⟩
  | setForward v fault => exact ⟨rfl, rfl, Control.sent_setForward _ v fault⟩
  | retune t keep fault =>
      have h := Control.retune_response car.control t keep 0 fault
      rw [perform, h.eq_withMotion]
      exact ⟨rfl, rfl, (Control.retune_retuned _ t keep fault).sent_eq⟩

/-- Over a run without renewals the settings stay the same, and the frames are numbered one
after the other. -/
theorem numbered_after (t : Settings) (stored : Option (CalibrationData Float32))
    {run : List Operation} (h : ∀ u, .renew u ∉ run) :
  ((⟨.ofSettings t, stored⟩ : Car).after run).control.settings = t ∧
    ((⟨.ofSettings t, stored⟩ : Car).after run).control.Numbered
      (frames ((⟨.ofSettings t, stored⟩ : Car).effects run))
  := by
  apply of_perform (P := fun c effects => c.settings = t ∧ c.Numbered (frames effects))
  · exact ⟨rfl, rfl, rfl⟩
  · intro car op effects hop ⟨hs, hn⟩
    rw [frames_append]
    by_cases hturn : ∃ s, op = .turn s
    · obtain ⟨s, rfl⟩ := hturn
      rw [perform, Control.turn_settings]
      exact ⟨hs, hn.turn s⟩
    · obtain ⟨hset, hrep, hsent⟩ := perform_unreported car hop (not_exists.mp hturn)
      rw [frames_of_unsent hsent, List.append_nil, hset]
      exact ⟨hs, hn.congr hrep⟩
  · exact h

/-- Over every run of a control loop the frames that are sent are numbered from zero on,
modulo `2 ^ 16`, without a gap or a repetition; and at speeds that are not below zero,
whatever the next turn sends is true of it. -/
theorem telemetry_truthful (t : Settings) (hthrottle : ¬ t.throttleSpeed < 0.0)
    (hsteering : ¬ t.steeringSpeed < 0.0) (stored : Option (CalibrationData Float32))
    {run : List Operation} (h : ∀ u, .renew u ∉ run) :
  (frames ((⟨.ofSettings t, stored⟩ : Car).effects run)).map (·.seq) =
      (List.range (frames ((⟨.ofSettings t, stored⟩ : Car).effects run)).length).map
        UInt16.ofNat ∧
    ∀ s, ((⟨.ofSettings t, stored⟩ : Car).after run).control.Truthful s
  := by
  obtain ⟨hset, hnumbered⟩ := numbered_after t stored h
  use hnumbered.seq
  intro s
  rw [← hset] at hthrottle hsteering
  exact Control.truthful hthrottle hsteering

/-- Two turns with a client, half a second after a command. -/
def watched : List Operation :=
  [.start .plain, .turn (Moment.plain 1000 (some (.clamped 0.5 0.2))).toSurroundings,
    .turn { (Moment.plain 1500 none).toSurroundings with clients := 1 },
    .turn { (Moment.plain 1550 none).toSurroundings with clients := 1 }]

theorem telemetry_of_watched :
  (frames ((⟨.ofSettings {}, none⟩ : Car).effects watched)).map (·.seq) = [0, 1, 2] ∧
    ∀ s, ((⟨.ofSettings {}, none⟩ : Car).after watched).control.Truthful s
  := by
  have h : ∀ u, .renew u ∉ watched := by
    intro u hu
    simp [watched] at hu
  have hn : (frames ((⟨.ofSettings {}, none⟩ : Car).effects watched)).length = 3 := by
    decide +kernel
  obtain ⟨hseq, htrue⟩ := telemetry_truthful {} (by decide) (by decide) none h
  rw [hn] at hseq
  exact ⟨hseq, htrue⟩

end Car

end ModelCar
