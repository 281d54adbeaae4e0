import Mathlib.Tactic.Use
import ModelCar.Control.Start
import ModelCar.Proofs.Control.Requests

/-!
# The control loop after its start

A start leaves the sources without a command and the failsafe as it was.  It moves the
actuators to rest, and it stores no calibration data.  Only a start with a working motion
sensor looks at the stored calibration, and one that it can use makes the data valid.
-/

namespace ModelCar.Control

variable (c : Control) (s : Startup)

/-! ### The stages of a start -/

/-- The control loop with the radio receiver, if it works. -/
def received : Control :=
  (c.startRadio s.radioFault).1

/-- The control loop with the motion sensor, if it works, and its stored calibration. -/
def loaded : Control :=
  ((c.received s).startInertial s).1

/-- The control loop with its tuning. -/
def tuned : Control :=
  ((c.loaded s).use (startTuning s.tuning).1).1

/-- The control loop with its first calibration under way. -/
def calibrating : Control :=
  (c.tuned s).startCalibration.1

/-- A start is the sequence of its stages. -/
theorem launch_eq :
  c.launch s =
    (((c.calibrating s).startClock s.now).1,
      (c.startRadio s.radioFault).2 ++ ((c.received s).startInertial s).2
        ++ .note (startTuning s.tuning).2
          :: ((c.loaded s).use (startTuning s.tuning).1).2
        ++ (c.tuned s).startCalibration.2
        ++ ((c.calibrating s).startClock s.now).2)
  := by
  rcases h₁ : c.startRadio s.radioFault with ⟨c₁, e₁⟩
  rcases h₂ : c₁.startInertial s with ⟨c₂, e₂⟩
  rcases h₃ : startTuning s.tuning with ⟨t, n⟩
  rcases h₄ : c₂.use t with ⟨c₄, e₄⟩
  rcases h₅ : c₄.startCalibration with ⟨c₅, e₅⟩
  rcases h₆ : c₅.startClock s.now with ⟨c₆, e₆⟩
  simp only [launch, calibrating, tuned, loaded, received, h₁, h₂, h₃, h₄, h₅, h₆]

theorem startRadio_eq (fault : Option Fault) :
  (c.startRadio fault).1 = { c with radio := (c.startRadio fault).1.radio }
  := by cases fault <;> rfl

theorem loadCalibration_eq (stored : Option (CalibrationData Float32)) :
  (c.loadCalibration stored).1
    = { c with inertial := (c.loadCalibration stored).1.inertial }
  := by
  cases stored with
  | none => rfl
  | some data =>
      simp only [loadCalibration]
      split
      · rfl
      · rfl

theorem startInertial_eq :
  (c.startInertial s).1 = { c with inertial := (c.startInertial s).1.inertial }
  := by
  unfold startInertial
  split
  · rw [loadCalibration_eq]
  · rfl

/-- The first calibration is one of the whole sensor, if there is a sensor. -/
theorem startCalibration_cases :
  c.inertial.enabled ∧ (∃ target, c.startCalibration.1 =
      c.withCalibration (c.inertial.calibration.collect .full target)) ∨
    ¬ c.inertial.enabled ∧ c.startCalibration.1 = c
  := by
  by_cases h : c.inertial.enabled
  · left
    use h
    simp only [startCalibration, if_pos h, Calibration.start]
    use (if c.settings.startSamples.toNat = 0 then Calibration.defaultRestTarget
      else c.settings.startSamples.toNat)
  · right
    use h
    simp only [startCalibration, if_neg h]

theorem calibrating_eq :
  c.calibrating s =
    { c with
      radio := (c.received s).radio
      inertial := (c.calibrating s).inertial
      stabilizer := (c.calibrating s).stabilizer }
  := by
  have ht : c.tuned s =
      { c with
        radio := (c.received s).radio
        inertial := (c.tuned s).inertial
        stabilizer := (c.tuned s).stabilizer } := by
    rw [tuned, use_eq, loaded, startInertial_eq, received, startRadio_eq]
    rfl
  obtain ⟨-, target, h⟩ | ⟨-, h⟩ := startCalibration_cases (c.tuned s)
  · rw [calibrating, h, ht]
    rfl
  · rw [calibrating, h, ht]

/-! ### Fields after a start -/

theorem launch_frame :
  (c.launch s).1 =
    { c with
      radio := (c.received s).radio
      inertial := (c.calibrating s).inertial
      stabilizer := (c.calibrating s).stabilizer
      calibrationSeen := (c.calibrating s).inertial.calibration.status
      actuators := { c.actuators with pace := c.actuators.pace.restart s.now }
      tally := { since := s.now }
      started := true }
  := by
  rw [launch_eq, startClock, calibrating_eq]

/-- Without a motion sensor a start does not touch the calibration. -/
theorem launch_of_no_sensor (he : ¬ c.inertial.enabled) (hs : s.sensorFault ≠ none) :
  ¬ (c.launch s).1.inertial.enabled ∧
    (c.launch s).1.inertial.calibration = c.inertial.calibration
  := by
  obtain ⟨f, hf⟩ := Option.ne_none_iff_exists'.mp hs
  have hl : (c.loaded s).inertial = c.inertial := by
    rw [loaded, startInertial, hf, received, startRadio_eq]
  have ht : (c.tuned s).inertial.enabled = c.inertial.enabled := by
    rw [tuned, use_eq, hl]
    rfl
  obtain ⟨h, -⟩ | ⟨-, h⟩ := startCalibration_cases (c.tuned s)
  · rw [ht] at h
    contradiction
  · rw [launch_frame, calibrating, h, tuned, use_eq, hl]
    use he
    rfl

/-- With a motion sensor a start loads what is stored, and calibrates. -/
theorem launch_of_sensor (hs : s.sensorFault = none) :
  (c.launch s).1.inertial.enabled ∧
    (c.launch s).1.inertial.calibration.data =
      (s.calibration.elim c.inertial.calibration c.inertial.calibration.load).data
  := by
  have hl : (c.loaded s).inertial.enabled ∧ (c.loaded s).inertial.calibration =
      s.calibration.elim c.inertial.calibration c.inertial.calibration.load := by
    rw [loaded, startInertial, hs, received, startRadio_eq]
    cases s.calibration with
    | none => exact ⟨rfl, rfl⟩
    | some data =>
        simp only [loadCalibration]
        split
        · exact ⟨rfl, rfl⟩
        · exact ⟨rfl, rfl⟩
  have ht : (c.tuned s).inertial.enabled ∧
      (c.tuned s).inertial.calibration = (c.loaded s).inertial.calibration := by
    rw [tuned, use_eq]
    use hl.1
    rfl
  obtain ⟨-, target, h⟩ | ⟨h, -⟩ := startCalibration_cases (c.tuned s)
  · rw [launch_frame, calibrating, h, ← hl.2, ← ht.2]
    use ht.1
    rfl
  · cases h ht.1

/-! ### Effects of a start -/

theorem plain_startRadio (fault : Option Fault) :
  Plain (c.startRadio fault).2
  := by
  cases fault with
  | none => apply plain_nil
  | some f => apply plain_nil.cons (Effect.plain_note _)

theorem plain_startInertial :
  Plain (c.startInertial s).2
  := by
  unfold startInertial
  split
  · cases s.calibration with
    | none => apply plain_nil.cons (Effect.plain_note _)
    | some data =>
        simp only [loadCalibration]
        split
        · apply plain_nil.cons (Effect.plain_note _)
        · apply plain_nil.cons (Effect.plain_note _)
  · apply plain_nil.cons (Effect.plain_note _)

theorem plain_startCalibration :
  Plain c.startCalibration.2
  := by
  simp only [startCalibration]
  split
  · apply plain_nil.cons (Effect.plain_note _)
  · apply plain_nil

/-- All that a start does is to bring the actuators to rest, besides plain effects. -/
theorem mem_launch {e : Effect} (he : e ∈ (c.launch s).2) :
  e = .neutral ∨ e.Plain
  := by
  rw [launch_eq] at he
  obtain he | he := List.mem_append.mp he
  · right
    apply ((((plain_startRadio c _).append (plain_startInertial _ s)).append
      ((plain_use _ _).cons (Effect.plain_note _))).append (plain_startCalibration _)) e he
  · obtain rfl | he := List.mem_cons.mp he
    · left
      rfl
    · obtain rfl := List.mem_singleton.mp he
      right
      apply Effect.plain_note

/-! ### The whole start -/

/-- A start launches the control loop, or else leaves it as it was. -/
theorem start_cases :
  ¬ c.started ∧ (c.start s).2 = c.launch s ∨
    (c.start s).2.1 = c ∧ Plain (c.start s).2.2
  := by
  by_cases h : c.started
  · right
    rw [start, if_pos h]
    use rfl
    apply plain_nil
  · rw [start, if_neg h]
    split
    · right
      use rfl
      apply plain_nil.cons (Effect.plain_note _)
    · right
      use rfl
      apply plain_nil.cons (Effect.plain_note _)
    · left
      use h

/-- The control loop with some settings, when it has been started. -/
def begun (t : Settings) : Control :=
  ((ofSettings t).start s).2.1

/-- The intervals and timeouts are those of the settings, no source has had a command
yet, and the failsafe has not seen one. -/
structure Fresh (c : Control) : Prop where
  radio_command : c.radio.command = none
  radio_interval : c.radio.pace.interval = c.settings.radioInterval
  wireless_last : c.wireless.last = none
  wireless_timeout : c.wireless.timeout = c.settings.wirelessTimeout
  failsafe_last : c.failsafe.last = none
  failsafe_timeout : c.failsafe.timeout = c.settings.failsafeTimeout

theorem begun_settings (t : Settings) :
  (begun s t).settings = t
  := by
  obtain ⟨-, h⟩ | ⟨h, -⟩ := start_cases (ofSettings t) s
  · rw [begun, h, launch_frame]
    rfl
  · rw [begun, h]
    rfl

theorem begun_fresh (t : Settings) :
  (begun s t).Fresh
  := by
  obtain ⟨-, h⟩ | ⟨h, -⟩ := start_cases (ofSettings t) s
  · rw [begun, h, launch_frame, received]
    cases s.radioFault with
    | none => exact ⟨rfl, rfl, rfl, rfl, rfl, rfl⟩
    | some f => exact ⟨rfl, rfl, rfl, rfl, rfl, rfl⟩
  · rw [begun, h]
    exact ⟨rfl, rfl, rfl, rfl, rfl, rfl⟩

end ModelCar.Control
