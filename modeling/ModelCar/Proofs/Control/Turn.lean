import ModelCar.Control.Turn
import ModelCar.Proofs.Control.Requests

/-!
# The stages of a turn

A turn goes through stages, each of which changes its own part of the control loop: the
sources of commands and the sensor are read, requests are served, the end of a
calibration is noted, a target is chosen and stabilized, the failsafe may overrule it,
the actuators are driven, and the turn is reported and counted.  Only guarding and
driving move the actuators; only serving and noting store calibration data.
-/

namespace ModelCar.Control

variable (c : Control) (s : Surroundings)

/-! ### The stages -/

/-- The control loop when it has read the inputs. -/
def sensed : Control :=
  (c.sense s).1

/-- The control loop when it has served the requests. -/
def served : Control :=
  ((c.sensed s).serve s.requests).1

/-- The control loop when it has noted the end of a calibration. -/
def noted : Control :=
  ((c.served s).noteCalibration s.fault).1

/-- The stabilized target. -/
def target : Controls :=
  ((c.noted s).choose.stabilize (c.elapsed s.now)).1

/-- The control loop when it has chosen and stabilized the target. -/
def stabilized : Control :=
  ((c.noted s).choose.stabilize (c.elapsed s.now)).2

/-- The target when the failsafe has had its say. -/
def goal : Controls :=
  ((c.stabilized s).guard s.now (c.target s)).1

/-- The control loop when the failsafe has had its say. -/
def guarded : Control :=
  ((c.stabilized s).guard s.now (c.target s)).2.1

/-- The control loop when it has driven the actuators. -/
def driven : Control :=
  ((c.guarded s).drive s.now (c.goal s)).1

/-- The control loop when it has reported. -/
def reported : Control :=
  ((c.driven s).report s.now s.clients).1

/-- A turn is the sequence of its stages. -/
theorem turn_eq :
  c.turn s =
    (((c.reported s).diagnose s.now (busyTime s)).1,
      (c.sense s).2 ++ ((c.sensed s).serve s.requests).2
        ++ ((c.served s).noteCalibration s.fault).2
        ++ ((c.stabilized s).guard s.now (c.target s)).2.2
        ++ ((c.guarded s).drive s.now (c.goal s)).2
        ++ ((c.driven s).report s.now s.clients).2
        ++ ((c.reported s).diagnose s.now (busyTime s)).2)
  := by
  rcases h₁ : c.sense s with ⟨c₁, e₁⟩
  rcases h₂ : c₁.serve s.requests with ⟨c₂, e₂⟩
  rcases h₃ : c₂.noteCalibration s.fault with ⟨c₃, e₃⟩
  rcases h₄ : c₃.choose.stabilize (c.elapsed s.now) with ⟨t₄, c₄⟩
  rcases h₅ : c₄.guard s.now t₄ with ⟨t₅, c₅, e₅⟩
  rcases h₆ : c₅.drive s.now t₅ with ⟨c₆, e₆⟩
  rcases h₇ : c₆.report s.now s.clients with ⟨c₇, e₇⟩
  rcases h₈ : c₇.diagnose s.now (busyTime s) with ⟨c₈, e₈⟩
  simp only [turn, reported, driven, goal, guarded, stabilized, target, noted, served,
    sensed, h₁, h₂, h₃, h₄, h₅, h₆, h₇, h₈]

/-- The rest of a turn after the requests, for what has been read and the time since the
turn before. -/
def finish (elapsed : Millis) : Control × List Effect :=
  let (c, noted) := c.noteCalibration s.fault
  let (target, c) := c.choose.stabilize elapsed
  let (target, c, guarded) := c.guard s.now target
  let (c, driven) := c.drive s.now target
  let (c, reported) := c.report s.now s.clients
  let (c, diagnosed) := c.diagnose s.now (busyTime s)
  (c, noted ++ guarded ++ driven ++ reported ++ diagnosed)

theorem finish_served :
  ((c.served s).finish s (c.elapsed s.now)).1 = (c.turn s).1
  := rfl

/-! ### The frame of each stage -/

theorem served_eq :
  c.served s = (c.sensed s).withMotion (c.served s).inertial (c.served s).stabilizer
  := serve_eq _ _

/-- Noting the end of a calibration keeps its status in mind, and at most aligns the
inertial unit. -/
theorem noteCalibration_eq (fault : Option Fault) :
  (c.noteCalibration fault).1 =
    { c with
      inertial := (c.noteCalibration fault).1.inertial
      calibrationSeen := c.inertial.calibration.status }
  := by
  unfold noteCalibration
  dsimp only
  by_cases h : c.inertial.calibration.status = c.calibrationSeen
  · rw [if_pos h, h]
  · rw [if_neg h]
    split
    · rfl
    · rfl
    · rfl

/-- The end of a calibration that is new is noted: the data are stored, and the attitude
is turned into the one of the car. -/
theorem noteCalibration_of_done {c : Control} (fault : Option Fault)
    (h : c.inertial.calibration.status = .done) (hs : c.calibrationSeen ≠ .done) :
  ∃ notice,
    c.noteCalibration fault =
      ({ c with inertial := c.inertial.align, calibrationSeen := .done },
        [.note (.calibrationDone c.inertial.calibration.mode),
          .storeCalibration c.inertial.calibration.data fault, .note notice])
  := by
  simp only [noteCalibration, h, if_neg hs.symm]
  exact ⟨_, rfl⟩

/-- Otherwise nothing is stored, and the inertial unit stays as it is. -/
theorem noteCalibration_of_not_done {c : Control} (fault : Option Fault)
    (h : ¬ (c.inertial.calibration.status = .done ∧ c.calibrationSeen ≠ .done)) :
  (c.noteCalibration fault).1.inertial = c.inertial ∧ Plain (c.noteCalibration fault).2
  := by
  by_cases hs : c.inertial.calibration.status = c.calibrationSeen
  · simp only [noteCalibration, if_pos hs, true_and]
    apply plain_nil
  · simp only [noteCalibration, if_neg hs]
    split
    · rename_i hd
      cases h ⟨hd, fun he => hs (hd.trans he.symm)⟩
    · use rfl
      apply plain_nil.cons (Effect.plain_note _)
    · use rfl
      apply plain_nil

theorem noteCalibration_calibration (fault : Option Fault) :
  (c.noteCalibration fault).1.inertial.calibration = c.inertial.calibration ∧
    (c.noteCalibration fault).1.inertial.enabled = c.inertial.enabled
  := by
  by_cases h : c.inertial.calibration.status = .done ∧ c.calibrationSeen ≠ .done
  · obtain ⟨notice, hn⟩ := noteCalibration_of_done fault h.1 h.2
    rw [hn]
    exact ⟨rfl, rfl⟩
  · rw [(noteCalibration_of_not_done fault h).1]
    exact ⟨rfl, rfl⟩

/-- Under an active failsafe, the command is neutral and the actuators are stopped. -/
theorem guard_of_active {now : Millis} (target : Controls)
    (h : (c.failsafe.update now c.radio.isActive c.wireless.isActive).isActive) :
  c.guard now target =
    (.neutral,
      { c with
        failsafe := c.failsafe.update now c.radio.isActive c.wireless.isActive
        failsafeSeen := .active
        commanded := .neutral
        actuators := c.actuators.stopped },
      failsafeEffects c.failsafeSeen .active ++ [.neutral])
  := by
  have hs : (c.failsafe.update now c.radio.isActive c.wireless.isActive).state = .active :=
    of_decide_eq_true h
  simp only [guard, if_pos h, hs]

/-- An inactive failsafe leaves the target as it is. -/
theorem guard_of_not_active {now : Millis} (target : Controls)
    (h : ¬ (c.failsafe.update now c.radio.isActive c.wireless.isActive).isActive) :
  c.guard now target =
    (target,
      { c with
        failsafe := c.failsafe.update now c.radio.isActive c.wireless.isActive
        failsafeSeen := (c.failsafe.update now c.radio.isActive c.wireless.isActive).state },
      failsafeEffects c.failsafeSeen
        (c.failsafe.update now c.radio.isActive c.wireless.isActive).state)
  := by simp only [guard, if_neg h]

/-- Guarding changes the failsafe and what was told about it, the command and the
actuators. -/
theorem guard_eq (now : Millis) (target : Controls) :
  (c.guard now target).2.1 =
    { c with
      failsafe := c.failsafe.update now c.radio.isActive c.wireless.isActive
      failsafeSeen := (c.failsafe.update now c.radio.isActive c.wireless.isActive).state
      commanded := (c.guard now target).2.1.commanded
      actuators := (c.guard now target).2.1.actuators }
  := by
  by_cases h : (c.failsafe.update now c.radio.isActive c.wireless.isActive).isActive
  · rw [guard_of_active c target h, of_decide_eq_true h]
  · rw [guard_of_not_active c target h]

/-- Driving changes the actuators. -/
theorem drive_eq (now : Millis) (target : Controls) :
  (c.drive now target).1 = { c with actuators := (c.drive now target).1.actuators }
  := by
  unfold drive
  split
  · rfl
  · rfl

theorem report_eq (now : Millis) (clients : Nat) :
  (c.report now clients).1 = { c with reporter := (c.report now clients).1.reporter }
  := rfl

theorem diagnose_eq (now : Millis) (busy : UInt64) :
  (c.diagnose now busy).1 = { c with tally := (c.diagnose now busy).1.tally }
  := by
  simp only [diagnose]
  split
  · rfl
  · rfl

/-- Up to noting the end of a calibration, a turn changes what it has read, the
stabilizer, and the status that it keeps in mind. -/
theorem noted_eq :
  c.noted s =
    { c with
      lastTurn := some s.now
      radio := c.radio.update s.now s.radio
      wireless := c.wireless.update s.now s.wireless
      inertial := (c.noted s).inertial
      stabilizer := (c.noted s).stabilizer
      calibrationSeen := (c.served s).inertial.calibration.status }
  := by
  rw [noted, noteCalibration_eq, served_eq]
  rfl

/-- After that, a turn leaves the inertial unit as it is. -/
theorem turn_frame :
  (c.turn s).1 =
    { c.noted s with
      stabilizer := (c.turn s).1.stabilizer
      failsafe := (c.guarded s).failsafe
      failsafeSeen := (c.guarded s).failsafe.state
      commanded := (c.guarded s).commanded
      actuators := (c.driven s).actuators
      reporter := (c.turn s).1.reporter
      tally := (c.turn s).1.tally }
  := by
  rw [turn_eq, diagnose_eq, reported, report_eq, driven, drive_eq, guarded, guard_eq]
  rfl

/-! ### Fields after a turn -/

theorem turn_settings :
  (c.turn s).1.settings = c.settings
  := by rw [turn_frame, noted_eq]

theorem turn_radio :
  (c.turn s).1.radio = c.radio.update s.now s.radio
  := by rw [turn_frame, noted_eq]

theorem turn_wireless :
  (c.turn s).1.wireless = c.wireless.update s.now s.wireless
  := by rw [turn_frame, noted_eq]

theorem turn_inertial :
  (c.turn s).1.inertial = (c.noted s).inertial
  := by rw [turn_frame]

theorem turn_calibrationSeen :
  (c.turn s).1.calibrationSeen = (c.served s).inertial.calibration.status
  := by rw [turn_frame, noted_eq]

theorem turn_started :
  (c.turn s).1.started = c.started
  := by rw [turn_frame, noted_eq]

/-- The failsafe is updated with what the sources have become in this turn. -/
theorem turn_failsafe :
  (c.turn s).1.failsafe =
    c.failsafe.update s.now (c.turn s).1.radio.isActive (c.turn s).1.wireless.isActive
  := by
  rw [turn_radio, turn_wireless, turn_frame, guarded, guard_eq, stabilized]
  show (c.noted s).failsafe.update s.now (c.noted s).radio.isActive
    (c.noted s).wireless.isActive = _
  rw [noted_eq]

/-! ### Effects of a turn -/

theorem plain_sense :
  Plain (c.sense s).2
  := by
  simp only [sense]
  split
  · apply plain_nil.cons ⟨id, id⟩
  · apply plain_nil

/-- Noting the end of a calibration moves nothing. -/
theorem noteCalibration_still (fault : Option Fault) :
  ∀ e ∈ (c.noteCalibration fault).2, ¬ e.Moves
  := by
  intro e he
  by_cases h : c.inertial.calibration.status = .done ∧ c.calibrationSeen ≠ .done
  · obtain ⟨notice, hn⟩ := noteCalibration_of_done fault h.1 h.2
    rw [hn] at he
    obtain rfl | he := List.mem_cons.mp he
    · exact id
    · obtain rfl | he := List.mem_cons.mp he
      · exact id
      · obtain rfl := List.mem_singleton.mp he
        exact id
  · apply ((noteCalibration_of_not_done fault h).2 e he).1

theorem mem_failsafeEffects {before after : Failsafe.State} {e : Effect}
    (he : e ∈ failsafeEffects before after) :
  (∃ n, e = .note n) ∨ ∃ active, e = .failsafeChanged active
  := by
  unfold failsafeEffects at he
  split at he
  · cases he
  · obtain rfl | he := List.mem_cons.mp he
    · left
      use .failsafe after
    · right
      split at he
      · cases he
      · use decide (after = .active)
        apply List.mem_singleton.mp he

/-- Guarding tells about the failsafe, and brings the actuators to rest. -/
theorem mem_guard {now : Millis} {target : Controls} {e : Effect}
    (he : e ∈ (c.guard now target).2.2) :
  (∃ n, e = .note n) ∨ (∃ active, e = .failsafeChanged active) ∨ e = .neutral
  := by
  by_cases h : (c.failsafe.update now c.radio.isActive c.wireless.isActive).isActive
  · rw [guard_of_active c target h] at he
    obtain he | he := List.mem_append.mp he
    · obtain hn | hf := mem_failsafeEffects he
      · exact .inl hn
      · exact .inr (.inl hf)
    · exact .inr (.inr (List.mem_singleton.mp he))
  · rw [guard_of_not_active c target h] at he
    obtain hn | hf := mem_failsafeEffects he
    · exact .inl hn
    · exact .inr (.inl hf)

theorem guard_storeless (now : Millis) (target : Controls) :
  ∀ e ∈ (c.guard now target).2.2, ¬ e.StoresCalibration
  := by
  intro e he
  obtain ⟨n, rfl⟩ | ⟨active, rfl⟩ | rfl := c.mem_guard he
  · exact id
  · exact id
  · exact id

/-- Driving stores no calibration data. -/
theorem drive_storeless (now : Millis) (target : Controls) :
  ∀ e ∈ (c.drive now target).2, ¬ e.StoresCalibration
  := by
  intro e he
  unfold drive at he
  split at he
  · cases he
  · obtain rfl := List.mem_singleton.mp he
    exact id

theorem plain_report (now : Millis) (clients : Nat) :
  Plain (c.report now clients).2
  := by
  simp only [report, Reporter.update]
  split
  · apply plain_nil
  · apply Plain.cons ⟨id, id⟩
    intro e he
    obtain ⟨snapshot, -, rfl⟩ := Option.map_eq_some_iff.mp (Option.mem_toList.mp he)
    exact ⟨id, id⟩

theorem plain_diagnose (now : Millis) (busy : UInt64) :
  Plain (c.diagnose now busy).2
  := by
  simp only [diagnose]
  split
  · apply plain_nil
  · apply Plain.cons (Effect.plain_note _)
    split
    · apply plain_nil.cons (Effect.plain_note _)
    · apply plain_nil

/-- Whatever moves the actuators in a turn comes from guarding or from driving. -/
theorem mem_turn_of_moves {e : Effect} (he : e.Moves) :
  e ∈ (c.turn s).2 ↔
    e ∈ ((c.stabilized s).guard s.now (c.target s)).2.2 ∨
      e ∈ ((c.guarded s).drive s.now (c.goal s)).2
  := by
  have hs : e ∉ (c.sense s).2 := fun h => (plain_sense c s e h).1 he
  have hv : e ∉ ((c.sensed s).serve s.requests).2 := fun h => serve_still _ _ e h he
  have hn : e ∉ ((c.served s).noteCalibration s.fault).2 :=
    fun h => noteCalibration_still _ _ e h he
  have hr : e ∉ ((c.driven s).report s.now s.clients).2 :=
    fun h => (plain_report _ _ _ e h).1 he
  have hd : e ∉ ((c.reported s).diagnose s.now (busyTime s)).2 :=
    fun h => (plain_diagnose _ _ _ e h).1 he
  rw [turn_eq]
  simp only [List.mem_append, hs, hv, hn, hr, hd, false_or, or_false]

/-- Whatever stores calibration data in a turn comes from serving or from noting, in
this order. -/
theorem turn_stores :
  ∃ before after, (∀ e ∈ before ++ after, ¬ e.StoresCalibration) ∧
    (c.turn s).2 =
      before ++ ((c.sensed s).serve s.requests).2
        ++ ((c.served s).noteCalibration s.fault).2 ++ after
  := by
  use (c.sense s).2,
    ((c.stabilized s).guard s.now (c.target s)).2.2
      ++ ((c.guarded s).drive s.now (c.goal s)).2
      ++ ((c.driven s).report s.now s.clients).2
      ++ ((c.reported s).diagnose s.now (busyTime s)).2
  constructor
  · simp only [List.forall_mem_append]
    use fun e he => (plain_sense c s e he).2
    use ⟨⟨guard_storeless _ _ _, drive_storeless _ _ _⟩,
      fun e he => (plain_report _ _ _ e he).2⟩
    exact fun e he => (plain_diagnose _ _ _ e he).2
  · rw [turn_eq]
    simp only [List.append_assoc]

end ModelCar.Control
