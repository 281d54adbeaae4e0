import ModelCar.Json.Record
import ModelCar.Stabilization.Patch

/-!
# Tunings in JSON

A tuning is an object of fifteen fields; its mark is not shown.  Read from JSON,
a missing field has its standard value.  In a change every field may be missing or
null.
-/

namespace ModelCar.Tuning

/-- The names of the fields. -/
def fieldNames : List String :=
  ["enabled", "madgwick_beta", "lpf_cutoff_hz", "imu_sample_rate_hz", "mode", "pid_kp",
    "pid_ki", "pid_kd", "pid_max_integral", "pid_max_correction", "steer_to_yaw_rate_dps",
    "fade_ms", "pitch_comp_enabled", "pitch_comp_gain", "pitch_comp_max_correction"]

/-- The values of the fields, with a given writer for numbers. -/
def fieldValues (number : Float32 → Json) (t : Tuning Float32) : List Json :=
  [.bool t.enabled, number t.attitudeGain, number t.cutoff, number t.sampleRate,
    .ofInt t.mode.toNat, number t.proportional, number t.integral, number t.derivative,
    number t.maxIntegral, number t.maxCorrection, number t.fullYawRate,
    .ofInt t.fade.toNat, .bool t.pitchEnabled, number t.pitchGain,
    number t.maxPitchCorrection]

/-- The fields of a tuning, with a given writer for numbers. -/
def fields (number : Float32 → Json) (t : Tuning Float32) : List (String × Json) :=
  fieldNames.zip (t.fieldValues number)

/-- A tuning as JSON. -/
def toJson (t : Tuning Float32) : Json :=
  .ofFields (t.fields .ofSingle)

/-- A number of eight bits. -/
def byte? (value : Json) : Option UInt8 :=
  (value.below? UInt8.size).map .ofNat

/-- A number of milliseconds. -/
def millis? (value : Json) : Option Millis :=
  (value.below? UInt32.size).map .ofNat

/-- Reads the fields of a change. -/
def Patch.ofSlots? : List (Option Json) → Option (Patch Float32)
  | [enabled, attitudeGain, cutoff, sampleRate, mode, proportional, integral, derivative,
      maxIntegral, maxCorrection, fullYawRate, fade, pitchEnabled, pitchGain,
      maxPitchCorrection] => do
    pure {
      enabled := ← Json.optional Json.bool? enabled
      attitudeGain := ← Json.optional Json.single? attitudeGain
      cutoff := ← Json.optional Json.single? cutoff
      sampleRate := ← Json.optional Json.single? sampleRate
      mode := ← Json.optional byte? mode
      proportional := ← Json.optional Json.single? proportional
      integral := ← Json.optional Json.single? integral
      derivative := ← Json.optional Json.single? derivative
      maxIntegral := ← Json.optional Json.single? maxIntegral
      maxCorrection := ← Json.optional Json.single? maxCorrection
      fullYawRate := ← Json.optional Json.single? fullYawRate
      fade := ← Json.optional millis? fade
      pitchEnabled := ← Json.optional Json.bool? pitchEnabled
      pitchGain := ← Json.optional Json.single? pitchGain
      maxPitchCorrection := ← Json.optional Json.single? maxPitchCorrection }
  | _ => none

/-- Reads a change from an object, or from an array with a place for every field. -/
def Patch.ofJson? (value : Json) : Option (Patch Float32) := do
  Patch.ofSlots? (← value.fullSlots fieldNames)

/-- Reads the fields of a tuning. -/
def ofSlots? : List (Option Json) → Option (Tuning Float32)
  | [enabled, attitudeGain, cutoff, sampleRate, mode, proportional, integral, derivative,
      maxIntegral, maxCorrection, fullYawRate, fade, pitchEnabled, pitchGain,
      maxPitchCorrection] => do
    let number (fallback : Float32) := Json.defaulted fallback Json.single?
    let usual : Tuning Float32 := standard
    pure {
      enabled := ← Json.defaulted usual.enabled Json.bool? enabled
      attitudeGain := ← number usual.attitudeGain attitudeGain
      cutoff := ← number usual.cutoff cutoff
      sampleRate := ← number usual.sampleRate sampleRate
      mode := ← Json.defaulted usual.mode byte? mode
      proportional := ← number usual.proportional proportional
      integral := ← number usual.integral integral
      derivative := ← number usual.derivative derivative
      maxIntegral := ← number usual.maxIntegral maxIntegral
      maxCorrection := ← number usual.maxCorrection maxCorrection
      fullYawRate := ← number usual.fullYawRate fullYawRate
      fade := ← Json.defaulted usual.fade millis? fade
      pitchEnabled := ← Json.defaulted usual.pitchEnabled Json.bool? pitchEnabled
      pitchGain := ← number usual.pitchGain pitchGain
      maxPitchCorrection := ← number usual.maxPitchCorrection maxPitchCorrection
      magic := mark }
  | _ => none

/-- Reads a tuning. -/
def ofJson? (value : Json) : Option (Tuning Float32) := do
  ofSlots? (← value.slots fieldNames)

end ModelCar.Tuning
