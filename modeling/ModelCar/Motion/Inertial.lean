import ModelCar.Clock
import ModelCar.Motion.Attitude
import ModelCar.Motion.Calibration
import ModelCar.Motion.LowPass
import ModelCar.Number.Binary
import ModelCar.Stabilization.Tuning

/-!
# The inertial unit

The motion sensor with all that is computed from it: at its own pace a sample is read,
fed to a running calibration, corrected, and handed to the filter of the yaw rate and
to the attitude filter.
-/

namespace ModelCar

/-- The motion sensor and what is known from it. -/
structure Inertial where
  pace : Pace
  enabled : Bool := false
  /-- The last sample, corrected. -/
  sample : Sample Float32 := ⟨.zero, .zero⟩
  /-- The filtered yaw rate. -/
  yawRate : Float32 := 0.0
  /-- The time that the last sample stands for, in seconds. -/
  seconds : Float32 := 0.0
  calibration : Calibration Float32 Float := .unset
  attitude : Attitude Float32 := .start Attitude.defaultGain
  lowPass : LowPass Float32 := .unset
deriving DecidableEq

namespace Inertial

/-- The time since the last reading, if the sensor is read now. -/
def due (i : Inertial) (now : Millis) : Option Millis :=
  if i.enabled then i.pace.due now else none

/-- Takes in a sample that stands for a time. -/
def take (i : Inertial) (raw : Sample Float32) (elapsed : Millis) : Inertial :=
  let calibration := i.calibration.feed raw
  let sample := calibration.correct raw
  let lowPass := i.lowPass.step sample.rate.z
  let seconds := Scalar.ofNat elapsed.toNat / 1000.0
  { i with
    calibration := calibration
    sample := sample
    lowPass := lowPass
    yawRate := lowPass.y1
    seconds := seconds
    attitude := i.attitude.advance sample seconds }

/-- Reads the sensor if it is time to; the reading may find nothing. -/
def update (i : Inertial) (now : Millis) (reading : Option (Sample Float32)) : Inertial :=
  match i.due now with
  | none => i
  | some elapsed =>
    let i := { i with pace := i.pace.restart now }
    match reading with
    | none => i
    | some raw => i.take raw elapsed

/-- Uses the settings of a tuning for the filters. -/
def retune (i : Inertial) (t : Tuning Float32) : Inertial :=
  { i with
    attitude := { i.attitude with gain := t.attitudeGain }
    lowPass := i.lowPass.configure t.cutoff t.sampleRate }

/-- Turns the attitude into the one of the car, as far as calibration knows it. -/
def align (i : Inertial) : Inertial :=
  let data := i.calibration.data
  { i with attitude := i.attitude.setForward (if data.valid then some data.forward else none) }

/-- The last acceleration in the forward direction. -/
def forwardAcceleration (i : Inertial) : Float32 :=
  i.calibration.forwardAcceleration i.sample

end Inertial

end ModelCar
