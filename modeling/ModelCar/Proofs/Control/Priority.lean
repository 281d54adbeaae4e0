import ModelCar.Proofs.Control.Conduct

/-!
# The priority of the radio receiver

Requests, starts and the end of a calibration do not look at the links.  A turn does, but
as long as the radio receiver has a command, this one is chosen, and it is a source of
commands by itself.  So whatever wireless clients send then, they do not change the conduct
of the car; all that they change is what is kept of them, what is reported and what is
counted.
-/

namespace ModelCar

/-- The same surroundings with another wireless command, other clients, and other times
that the turn takes. -/
def Surroundings.withWireless (s : Surroundings) (command : Option Controls) (clients : Nat)
    (began ended : UInt64) : Surroundings :=
  { s with wireless := command, clients, began, ended }

/-- The same operation with another wireless command, if it is a turn. -/
inductive Operation.SameButWireless : Operation → Operation → Prop where
  | refl (op : Operation) : SameButWireless op op
  | turn (s : Surroundings) (command : Option Controls) (clients : Nat)
      (began ended : UInt64) :
      SameButWireless (.turn s) (.turn (s.withWireless command clients began ended))

namespace Control

/-- The same control loop with other links and other counts. -/
def withLinks (c : Control) (w : Wireless) (r : Reporter) (t : Tally) : Control :=
  { c with wireless := w, reporter := r, tally := t }

variable (c : Control) (w : Wireless) (r : Reporter) (t : Tally)

theorem withLinks_settings :
  (c.withLinks w r t).settings = c.settings
  := rfl

theorem withLinks_inertial :
  (c.withLinks w r t).inertial = c.inertial
  := rfl

theorem withLinks_started :
  (c.withLinks w r t).started = c.started
  := rfl

/-! ### Requests -/

theorem calibrate_withLinks (full : Bool) :
  (c.withLinks w r t).calibrate full =
    ((c.calibrate full).1.withLinks w r t, (c.calibrate full).2)
  := by
  unfold calibrate
  by_cases h : c.inertial.enabled
  · rw [if_pos h, if_pos (c.withLinks_inertial w r t ▸ h)]
    cases full with
    | true => rfl
    | false => rfl
  · rw [if_neg h, if_neg (c.withLinks_inertial w r t ▸ h)]

theorem calibrateForward_withLinks :
  (c.withLinks w r t).calibrateForward =
    (c.calibrateForward.1, c.calibrateForward.2.1.withLinks w r t, c.calibrateForward.2.2)
  := by
  unfold calibrateForward
  by_cases h : c.inertial.calibration.status = .collecting
  · rw [if_pos h, if_pos (c.withLinks_inertial w r t ▸ h)]
  · rw [if_neg h, if_neg (c.withLinks_inertial w r t ▸ h)]
    simp only [withLinks_inertial, withLinks_settings]
    cases c.inertial.calibration.start .forward c.settings.forwardSamples.toNat with
    | ok calibration => rfl
    | error reason => rfl

theorem retune_withLinks (u : Tuning Float32) (keep : Bool) (fault : Option Fault) :
  (c.withLinks w r t).retune u keep fault =
    ((c.retune u keep fault).1, (c.retune u keep fault).2.1.withLinks w r t,
      (c.retune u keep fault).2.2)
  := by
  by_cases h : u.clamped.IsValid
  · simp only [retune, if_pos h]
    cases keep with
    | true => cases fault <;> rfl
    | false => rfl
  · simp only [retune, if_neg h]

/-- No request looks at the links. -/
theorem handle_withLinks (d : Delivery) :
  (c.withLinks w r t).handle d = ((c.handle d).1.withLinks w r t, (c.handle d).2)
  := by
  obtain ⟨⟨ticket, request⟩, fault⟩ := d
  cases request with
  | calibrate full => exact calibrate_withLinks c w r t full
  | calibrateForward => simp only [handle, calibrateForward_withLinks]
  | setForward v => rfl
  | retune u keep => simp only [handle, retune_withLinks]
  | query => rfl

theorem serve_withLinks (ds : List Delivery) :
  (c.withLinks w r t).serve ds = ((c.serve ds).1.withLinks w r t, (c.serve ds).2)
  := by
  induction ds generalizing c with
  | nil => rfl
  | cons d ds ih => rw [serve_cons, serve_cons, handle_withLinks, ih]

/-! ### A start -/

theorem loadCalibration_withLinks (stored : Option (CalibrationData Float32)) :
  ((c.withLinks w r t).loadCalibration stored).1 =
    (c.loadCalibration stored).1.withLinks w r t
  := by
  cases stored with
  | none => rfl
  | some data =>
      simp only [loadCalibration]
      cases Calibration.objection? data with
      | none => rfl
      | some reason => rfl

theorem loaded_withLinks (u : Startup) :
  (c.withLinks w r t).loaded u = (c.loaded u).withLinks w r t
  := by
  have hr : (c.withLinks w r t).received u = (c.received u).withLinks w r t := by
    rw [received, received]
    cases u.radioFault with
    | none => rfl
    | some f => rfl
  rw [loaded, loaded, hr, startInertial, startInertial]
  cases u.sensorFault with
  | none =>
      exact loadCalibration_withLinks
        { c.received u with inertial := { (c.received u).inertial with enabled := true } }
        w r t u.calibration
  | some f => rfl

theorem startCalibration_withLinks :
  (c.withLinks w r t).startCalibration.1 = c.startCalibration.1.withLinks w r t
  := by
  unfold startCalibration
  by_cases h : c.inertial.enabled
  · rw [if_pos h, if_pos (c.withLinks_inertial w r t ▸ h)]
    rfl
  · rw [if_neg h, if_neg (c.withLinks_inertial w r t ▸ h)]

/-- A start looks at no links, and begins to count. -/
theorem launch_withLinks (u : Startup) :
  ((c.withLinks w r t).launch u).1 = (c.launch u).1.withLinks w r { since := u.now }
  := by
  have ht : (c.withLinks w r t).tuned u = (c.tuned u).withLinks w r t := by
    rw [tuned, tuned, loaded_withLinks]
    rfl
  rw [launch_eq, launch_eq, calibrating, calibrating, ht, startCalibration_withLinks]
  rfl

theorem start_withLinks (u : Startup) :
  ∃ t', ((c.withLinks w r t).start u).2.1 = (c.start u).2.1.withLinks w r t'
  := by
  unfold Control.start
  by_cases h : c.started
  · rw [if_pos h, if_pos (c.withLinks_started w r t ▸ h)]
    use t
  · rw [if_neg h, if_neg (c.withLinks_started w r t ▸ h)]
    split
    · use t
    · use t
    · exact ⟨_, launch_withLinks c w r t u⟩

/-! ### A turn -/

theorem noteCalibration_withLinks (fault : Option Fault) :
  (c.withLinks w r t).noteCalibration fault =
    ((c.noteCalibration fault).1.withLinks w r t, (c.noteCalibration fault).2)
  := by
  unfold noteCalibration
  dsimp only
  by_cases h : c.inertial.calibration.status = c.calibrationSeen
  · rw [if_pos h, if_pos (c.withLinks_inertial w r t ▸ h)]
  · rw [if_neg h, if_neg (c.withLinks_inertial w r t ▸ h)]
    simp only [withLinks_inertial]
    split
    · rfl
    · rfl
    · rfl

section
variable (s : Surroundings) (m : Option Controls) (n : Nat) (b e : UInt64)

theorem sensed_withLinks :
  (c.withLinks w r t).sensed (s.withWireless m n b e) =
    (c.sensed s).withLinks (w.update s.now m) r t
  := rfl

theorem served_withLinks :
  (c.withLinks w r t).served (s.withWireless m n b e) =
    (c.served s).withLinks (w.update s.now m) r t
  := by
  rw [served, served, sensed_withLinks]
  exact congrArg Prod.fst (serve_withLinks ..)

/-- Up to the choice of a command, a turn does nothing with the links but take in what
wireless clients have sent. -/
theorem noted_withLinks :
  (c.withLinks w r t).noted (s.withWireless m n b e) =
    (c.noted s).withLinks (w.update s.now m) r t
  := by
  rw [noted, noted, served_withLinks]
  exact congrArg Prod.fst (noteCalibration_withLinks ..)

theorem storeAll_turn_withLinks (stored : Option (CalibrationData Float32)) :
  storeAll stored ((c.withLinks w r t).turn (s.withWireless m n b e)).2 =
    storeAll stored (c.turn s).2
  := by
  rw [storeAll_turn, storeAll_turn, sensed_withLinks, served_withLinks, serve_withLinks,
    noteCalibration_withLinks]
  rfl

variable {c s}

/-- A command of the radio receiver is chosen, whatever the links say. -/
theorem choice_withLinks (h : c.radio.isActive) :
  (c.withLinks w r t).choice = c.choice
  := by
  obtain ⟨command, hc⟩ := Option.isSome_iff_exists.mp h
  show (c.radio.command <|> w.command).getD c.commanded =
    (c.radio.command <|> c.wireless.command).getD c.commanded
  rw [hc]
  rfl

theorem hasSource_withLinks (h : c.radio.isActive) :
  (c.withLinks w r t).hasSource = c.hasSource
  := by
  show (c.radio.isActive || w.isActive) = (c.radio.isActive || c.wireless.isActive)
  rw [h, Bool.true_or, Bool.true_or]

theorem agrees_withLinks (c : Control) :
  c.Agrees (c.withLinks w r t)
  := ⟨rfl, rfl, rfl, rfl, rfl, rfl, rfl, rfl, rfl⟩

/-- With a command of the radio receiver a turn does not depend on the links. -/
theorem decideAlike_withLinks (h : (c.noted s).radio.isActive) :
  DecideAlike c (c.withLinks w r t) s (s.withWireless m n b e)
  := by
  have hchoice := choice_withLinks (w.update s.now m) r t h
  refine ⟨rfl, ?_, ?_, ?_, ?_⟩
  · rw [noted_withLinks]
    apply agrees_withLinks
  · rw [noted_withLinks, hchoice]
  · rw [noted_withLinks, hasSource_withLinks _ _ _ h]
  · have hinput : ((c.noted s).withLinks (w.update s.now m) r t).choose.input =
        (c.noted s).choose.input := by
      rw [choose, hchoice]
      rfl
    rw [stabilizerTurn, noted_withLinks, hinput]
    rfl

end

/-- Control loops that agree, with the same inertial unit, differ only in what belongs to
the links. -/
theorem Agrees.eq_withLinks {c c' : Control} (h : c.Agrees c')
    (hi : c'.inertial = c.inertial) (hs : c'.calibrationSeen = c.calibrationSeen) :
  c' = c.withLinks c'.wireless c'.reporter c'.tally
  := by
  rw [withLinks, ← h.settings, ← h.radio, ← h.failsafe, ← h.failsafeSeen, ← h.stabilizer,
    ← h.commanded, ← h.actuators, ← h.lastTurn, ← h.started, ← hi, ← hs]

/-- With a command of the radio receiver, a turn that meets other wireless commands moves
alike, and still differs only in the links. -/
theorem turn_withLinks {c : Control} {s : Surroundings} (h : (c.turn s).1.radio.isActive)
    (m : Option Controls) (n : Nat) (b e : UInt64) :
  Conduct.of ((c.withLinks w r t).turn (s.withWireless m n b e)) = Conduct.of (c.turn s) ∧
    ∃ w' r' t', ((c.withLinks w r t).turn (s.withWireless m n b e)).1 =
      (c.turn s).1.withLinks w' r' t'
  := by
  have hr : (c.noted s).radio.isActive := by rwa [turn_frame] at h
  obtain ⟨hagrees, hmotions⟩ := (decideAlike_withLinks w r t m n b e hr).turn
  use hagrees.conduct hmotions
  refine ⟨_, _, _, hagrees.eq_withLinks ?_ ?_⟩
  · rw [turn_inertial, turn_inertial, noted_withLinks]
    rfl
  · rw [turn_calibrationSeen, turn_calibrationSeen, served_withLinks]
    rfl

end Control

/-! ### Runs -/

namespace Car

/-- The same car with other links. -/
def SameButLinks (car car' : Car) : Prop :=
  car'.stored = car.stored ∧ ∃ w r t, car'.control = car.control.withLinks w r t

variable {car car' : Car}

/-- An operation with the same effects on cars that differ in their links keeps it so. -/
theorem SameButLinks.of_perform (h : car.SameButLinks car') {op : Operation} {w : Wireless}
    {r : Reporter} {t : Tally}
    (hp : car'.perform op = ((car.perform op).1.withLinks w r t, (car.perform op).2)) :
  Conduct.of (car'.perform op) = Conduct.of (car.perform op) ∧
    (car.next op).SameButLinks (car'.next op)
  := by
  constructor
  · rw [hp]
    rfl
  · refine ⟨?_, w, r, t, ?_⟩
    · rw [next, next, hp, h.1]
    · rw [next, hp]
      rfl

theorem SameButLinks.start (h : car.SameButLinks car') (u : Startup) :
  Conduct.of (car'.perform (.start u)) = Conduct.of (car.perform (.start u)) ∧
    (car.next (.start u)).SameButLinks (car'.next (.start u))
  := by
  obtain ⟨hstored, w, r, t, hc⟩ := h
  obtain ⟨t', hstart⟩ :=
    Control.start_withLinks car.control w r t { u with calibration := car.stored }
  obtain ⟨hagrees, hmotions⟩ := (Control.agrees_withLinks w r t car.control).start
    { u with calibration := car.stored } { u with calibration := car.stored } rfl rfl rfl rfl
    rfl
  constructor
  · rw [perform, perform, hstored, hc]
    exact hagrees.conduct hmotions
  · refine ⟨?_, w, r, t', ?_⟩
    · rw [next, next, perform, perform, storeAll_of_not (Control.start_storeless _ _),
        storeAll_of_not (Control.start_storeless _ _), hstored]
    · rw [next, next, perform, perform, hstored, hc]
      exact hstart

theorem SameButLinks.turn (h : car.SameButLinks car') {s : Surroundings}
    (hr : (car.control.turn s).1.radio.isActive) (m : Option Controls) (n : Nat)
    (b e : UInt64) :
  Conduct.of (car'.perform (.turn (s.withWireless m n b e))) =
      Conduct.of (car.perform (.turn s)) ∧
    (car.next (.turn s)).SameButLinks (car'.next (.turn (s.withWireless m n b e)))
  := by
  obtain ⟨hstored, w, r, t, hc⟩ := h
  obtain ⟨hconduct, w', r', t', hturn⟩ := Control.turn_withLinks w r t hr m n b e
  constructor
  · rw [perform, hc]
    exact hconduct
  · refine ⟨?_, w', r', t', ?_⟩
    · rw [next, next, perform, perform, hstored, hc]
      apply Control.storeAll_turn_withLinks
    · rw [next, next, perform, perform, hc]
      exact hturn

/-- Cars that differ in their links are led alike by operations that differ in the wireless
commands, as long as every turn finds a command of the radio receiver. -/
theorem SameButLinks.step {op op' : Operation} (h : car.SameButLinks car')
    (hop : op.SameButWireless op') (hp : op.OnTurn (car.next op).control.radio.isActive) :
  Conduct.of (car'.perform op') = Conduct.of (car.perform op) ∧
    (car.next op).SameButLinks (car'.next op')
  := by
  cases hop with
  | turn s m n b e => exact h.turn hp m n b e
  | refl =>
      obtain ⟨-, w, r, t, hc⟩ := id h
      cases op with
      | renew u => exact ⟨rfl, h.1, _, _, _, rfl⟩
      | start u => exact h.start u
      | turn s => exact h.turn hp s.wireless s.clients s.began s.ended
      | calibrateForward =>
          apply h.of_perform (w := w) (r := r) (t := t)
          rw [perform, perform, hc, Control.calibrateForward_withLinks]
      | setForward v fault =>
          apply h.of_perform (w := w) (r := r) (t := t)
          rw [perform, perform, hc]
          rfl
      | retune u keep fault =>
          apply h.of_perform (w := w) (r := r) (t := t)
          rw [perform, perform, hc, Control.retune_withLinks]

/-- As long as the radio receiver has a command at every turn, wireless commands do not
interfere: two runs from one state that differ in nothing but them, and in what is told
to wireless clients, show the same conduct after every operation. -/
theorem radio_priority (car : Car) {run run' : List Operation}
    (hrun : List.Forall₂ Operation.SameButWireless run run')
    (hradio : car.EachTurn (fun c => c.radio.isActive) run) :
  car.conduct run' = car.conduct run
  := by
  apply conduct_eq (t := SameButLinks) SameButLinks.step _ hrun hradio
  exact ⟨rfl, _, _, _, rfl⟩

/-- A turn at which the radio receiver asks for full throttle, and wireless clients for
something else. -/
def contested (time : Nat) (wireless : Option Controls) : Operation :=
  .turn ((Moment.plain time (some (.clamped 1.0 0.0))).toSurroundings.withWireless wireless
    0 0 0)

/-- A start and two such turns. -/
def contestedRun (wireless : Option Controls) : List Operation :=
  [.start .plain, contested 1000 wireless, contested 1020 wireless]

/-- Wireless commands to stop are taken in such a run, and they change nothing. -/
theorem priority_of_contestedRun :
  ((⟨.ofSettings {}, none⟩ : Car).after (contestedRun (some .neutral))).control.wireless.isActive
    ∧ (⟨.ofSettings {}, none⟩ : Car).conduct (contestedRun (some .neutral))
      = (⟨.ofSettings {}, none⟩ : Car).conduct (contestedRun none)
  := by
  have hrun : List.Forall₂ Operation.SameButWireless (contestedRun none)
      (contestedRun (some .neutral)) :=
    .cons (.refl _) (.cons (.turn _ _ _ _ _) (.cons (.turn _ _ _ _ _) .nil))
  have hradio : (⟨.ofSettings {}, none⟩ : Car).EachTurn (fun c => c.radio.isActive)
      (contestedRun none) := by decide +kernel
  exact ⟨by decide +kernel, radio_priority _ hrun hradio⟩

end Car

end ModelCar
