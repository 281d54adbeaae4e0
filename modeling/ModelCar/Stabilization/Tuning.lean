import ModelCar.Clock
import ModelCar.Stabilization.Pid

/-!
# Tuning

A `Tuning` holds the settings of the filters and of the stabilization.  It comes from
outside, so it may hold anything: `clamped` brings every field into its range, and
`IsValid` says which tunings may be used.  A drive mode is a preset for some of the
fields.
-/

namespace ModelCar

/-- The drive modes. -/
inductive DriveMode where
  | normal
  | sport
  | drift
deriving DecidableEq, Repr, Inhabited

namespace DriveMode

/-- The number of a drive mode. -/
def code : DriveMode → UInt8
  | normal => 0
  | sport => 1
  | drift => 2

/-- The drive mode with a given number. -/
def ofCode? : UInt8 → Option DriveMode
  | 0 => some normal
  | 1 => some sport
  | 2 => some drift
  | _ => none

/-- The drive mode with a given number, normal for a number without one. -/
def ofCode (code : UInt8) : DriveMode :=
  (ofCode? code).getD normal

/-- The name of a drive mode. -/
def name : DriveMode → String
  | normal => "normal"
  | sport => "sport"
  | drift => "drift"

@[simp]
theorem ofCode?_code (mode : DriveMode) :
  ofCode? mode.code = some mode
  := by cases mode <;> rfl

end DriveMode

/-- The settings of the filters and of the stabilization. -/
structure Tuning (α : Type) where
  /-- The stabilization is switched on. -/
  enabled : Bool
  /-- How strongly acceleration corrects the attitude. -/
  attitudeGain : α
  /-- The cutoff frequency of the filter of the yaw rate. -/
  cutoff : α
  /-- The rate at which motion samples come. -/
  sampleRate : α
  /-- The number of the drive mode. -/
  mode : UInt8
  proportional : α
  integral : α
  derivative : α
  maxIntegral : α
  /-- The largest correction of the steering. -/
  maxCorrection : α
  /-- The yaw rate at full steering. -/
  fullYawRate : α
  /-- The time that switching on or off takes. -/
  fade : Millis
  /-- The throttle is corrected by the pitch. -/
  pitchEnabled : Bool
  pitchGain : α
  /-- The largest correction of the throttle. -/
  maxPitchCorrection : α
  /-- Marks a tuning as such. -/
  magic : UInt32
deriving DecidableEq, Inhabited

namespace Tuning

variable {α : Type} [Scalar α]

/-- The mark of a tuning. -/
def mark : UInt32 := 0x53544142

/-- The tuning that is used unless another one is given. -/
def standard : Tuning α where
  enabled := false
  attitudeGain := 0.1
  cutoff := 30.0
  sampleRate := 500.0
  mode := DriveMode.normal.code
  proportional := 0.1
  integral := 0.0
  derivative := 0.005
  maxIntegral := 0.5
  maxCorrection := 0.3
  fullYawRate := 90.0
  fade := 500
  pitchEnabled := false
  pitchGain := 0.01
  maxPitchCorrection := 0.25
  magic := mark

/-- The gains of the controller of the yaw rate. -/
def gains (t : Tuning α) : Pid.Gains α :=
  ⟨t.proportional, t.integral, t.derivative, t.maxIntegral, t.maxCorrection⟩

/-- A tuning that may be used. -/
def IsValid (t : Tuning α) : Prop :=
  t.magic = mark
    ∧ (0.0 : α) < t.attitudeGain ∧ t.attitudeGain ≤ (1.0 : α)
    ∧ (5.0 : α) ≤ t.cutoff ∧ t.cutoff ≤ (100.0 : α)
    ∧ (0.0 : α) < t.sampleRate
    ∧ (0.0 : α) ≤ t.proportional ∧ (0.0 : α) ≤ t.integral ∧ (0.0 : α) ≤ t.derivative
    ∧ (0.0 : α) < t.maxCorrection ∧ (0.0 : α) < t.fullYawRate

instance (t : Tuning α) : Decidable t.IsValid :=
  inferInstanceAs (Decidable (_ ∧ _))

/-- `x` held between `lo` and `hi`, or a fallback for what is not a number. -/
def within (lo hi fallback x : α) : α :=
  if Scalar.isNaN x then fallback else Scalar.clamp lo hi x

/-- The largest finite number. -/
def largest : α := 3.40282347e38

/-- The longest fade. -/
def longestFade : Millis := 5000

/-- The nearest tuning with every field in its range. -/
def clamped (t : Tuning α) : Tuning α :=
  { t with
    attitudeGain := within 0.01 1.0 standard.attitudeGain t.attitudeGain
    cutoff := within 5.0 100.0 standard.cutoff t.cutoff
    sampleRate := within 100.0 largest standard.sampleRate t.sampleRate
    mode := (DriveMode.ofCode t.mode).code
    proportional := within 0.0 largest standard.proportional t.proportional
    integral := within 0.0 largest standard.integral t.integral
    derivative := within 0.0 largest standard.derivative t.derivative
    maxIntegral := within 0.0 1.0 standard.maxIntegral t.maxIntegral
    maxCorrection := within 0.0 1.0 standard.maxCorrection t.maxCorrection
    fullYawRate := within 10.0 360.0 standard.fullYawRate t.fullYawRate
    fade := min t.fade longestFade
    pitchGain := within 0.0 0.05 standard.pitchGain t.pitchGain
    maxPitchCorrection := within 0.0 0.5 standard.maxPitchCorrection t.maxPitchCorrection }

/-- The tuning with the preset of a drive mode. -/
def withMode (t : Tuning α) (mode : DriveMode) : Tuning α :=
  match mode with
  | .normal =>
    { t with
      mode := mode.code
      proportional := 0.10, integral := 0.0, derivative := 0.005
      maxCorrection := 0.30, fullYawRate := 90.0
      pitchGain := 0.01, maxPitchCorrection := 0.25 }
  | .sport =>
    { t with
      mode := mode.code
      proportional := 0.20, integral := 0.01, derivative := 0.010
      maxCorrection := 0.40, fullYawRate := 120.0
      pitchGain := 0.02, maxPitchCorrection := 0.30 }
  | .drift =>
    { t with
      mode := mode.code
      proportional := 0.05, integral := 0.0, derivative := 0.002
      maxCorrection := 0.20, fullYawRate := 60.0
      pitchGain := 0.005, maxPitchCorrection := 0.15 }

/-- Why a tuning was not taken over, or not kept for the next start. -/
inductive Failure where
  | invalid
  | notStored (reason : String)
deriving DecidableEq, Repr

/-- The wording of a failure. -/
def Failure.message : Failure → String
  | invalid => "invalid stabilization config"
  | notStored reason => "persist failed: " ++ reason

end Tuning

end ModelCar
