import ModelCar.Json.Record
import ModelCar.Clock

/-!
# Settings of the control loop

Intervals and timeouts in milliseconds, speeds of the actuators per second, and the
numbers of samples of the calibrations.  In JSON every field has to be there.
-/

namespace ModelCar

/-- The settings of the control loop. -/
structure Settings where
  /-- The time from one turn of the loop to the next. -/
  period : Millis := 2
  radioInterval : Millis := 20
  inertialInterval : Millis := 2
  reportInterval : Millis := 50
  outputInterval : Millis := 20
  failsafeTimeout : Millis := 250
  wirelessTimeout : Millis := 500
  throttleSpeed : Float32 := 0.5
  steeringSpeed : Float32 := 1.0
  diagnosisInterval : Millis := 5000
  startSamples : UInt32 := 1000
  gyroSamples : UInt32 := 1000
  fullSamples : UInt32 := 2000
  forwardSamples : UInt32 := 2000
deriving DecidableEq, Inhabited

namespace Settings

/-- The usual settings with another period, of at least a millisecond. -/
def withPeriod (period : Millis) : Settings :=
  { period := max period 1 }

/-- The number of turns of the loop in a second. -/
def rate (s : Settings) : Nat :=
  1000 / (max s.period 1).toNat

/-- The names of the fields. -/
def fieldNames : List String :=
  ["control_period_ms", "rc_poll_interval_ms", "imu_read_interval_ms",
    "telem_interval_ms", "pwm_update_interval_ms", "failsafe_timeout_ms",
    "wifi_cmd_timeout_ms", "slew_throttle_per_sec", "slew_steering_per_sec",
    "diag_interval_ms", "boot_calib_samples", "gyro_calib_samples", "full_calib_samples",
    "forward_calib_samples"]

/-- The values of the fields. -/
def fieldValues (s : Settings) : List Json :=
  let word (n : UInt32) : Json := .ofInt n.toNat
  [word s.period, word s.radioInterval, word s.inertialInterval, word s.reportInterval,
    word s.outputInterval, word s.failsafeTimeout, word s.wirelessTimeout,
    .ofSingle s.throttleSpeed, .ofSingle s.steeringSpeed, word s.diagnosisInterval,
    word s.startSamples, word s.gyroSamples, word s.fullSamples, word s.forwardSamples]

/-- Settings as JSON. -/
def toJson (s : Settings) : Json :=
  .ofFields (fieldNames.zip s.fieldValues)

/-- Reads the fields of settings. -/
def ofSlots? : List (Option Json) → Option Settings
  | [period, radioInterval, inertialInterval, reportInterval, outputInterval,
      failsafeTimeout, wirelessTimeout, throttleSpeed, steeringSpeed, diagnosisInterval,
      startSamples, gyroSamples, fullSamples, forwardSamples] => do
    let word := Json.required fun value => (value.below? UInt32.size).map UInt32.ofNat
    let number := Json.required Json.single?
    pure {
      period := ← word period
      radioInterval := ← word radioInterval
      inertialInterval := ← word inertialInterval
      reportInterval := ← word reportInterval
      outputInterval := ← word outputInterval
      failsafeTimeout := ← word failsafeTimeout
      wirelessTimeout := ← word wirelessTimeout
      throttleSpeed := ← number throttleSpeed
      steeringSpeed := ← number steeringSpeed
      diagnosisInterval := ← word diagnosisInterval
      startSamples := ← word startSamples
      gyroSamples := ← word gyroSamples
      fullSamples := ← word fullSamples
      forwardSamples := ← word forwardSamples }
  | _ => none

/-- Reads settings. -/
def ofJson? (value : Json) : Option Settings := do
  ofSlots? (← value.slots fieldNames)

end Settings

end ModelCar
