import ModelCar.Json.Printer
import ModelCar.Link.Message
import ModelCar.Motion.Inertial
import ModelCar.Report.Values

/-!
# Snapshots for clients

A snapshot shows wireless clients the state of the links, what the inertial unit knows
if it is there, and the values applied to the actuators.
-/

namespace ModelCar

/-- What a snapshot shows of the inertial unit. -/
structure Snapshot.Motion where
  sample : Sample Float32
  yawRate : Float32
  forwardAcceleration : Float32
  angles : Angles
  status : Calibration.Status
  stage : Nat
  data : CalibrationData Float32
deriving DecidableEq

/-- A snapshot of the car. -/
structure Snapshot where
  status : Link.Status
  motion : Option Snapshot.Motion
  throttle : Float32
  steering : Float32
deriving DecidableEq

namespace Snapshot

/-- What there is to show of an inertial unit. -/
def Motion.of? (i : Inertial) : Option Motion :=
  if i.enabled then
    some {
      sample := i.sample
      yawRate := i.yawRate
      forwardAcceleration := i.forwardAcceleration
      angles := i.attitude.degrees
      status := i.calibration.status
      stage := i.calibration.stage
      data := i.calibration.data }
  else none

/-! ### JSON -/

/-- The sensor part of a snapshot as JSON. -/
def Motion.sensorJson (m : Motion) : Json :=
  .ofFields (accelerationFields m.sample.acceleration ++ rateFields m.sample.rate
    ++ [("gyro_z_filtered", .ofSingle m.yawRate),
      ("forward_accel", .ofSingle m.forwardAcceleration),
      ("orientation", m.angles.toJson)])

/-- The calibration part of a snapshot as JSON; the data are shown if they are valid. -/
def Motion.calibrationJson (m : Motion) : Json :=
  .ofFields ([("status", .ofText m.status.name), ("stage", .ofInt m.stage),
      ("valid", .bool m.data.valid)]
    ++ if m.data.valid then
        [("bias", .ofFields (rateFields m.data.rateBias
            ++ accelerationFields m.data.accelerationBias)),
          ("gravity_vec", m.data.gravity.toJson),
          ("forward_vec", m.data.forward.toJson)]
      else [])

/-- A snapshot as JSON. -/
def toJson (s : Snapshot) : Json :=
  .ofFields ([("type", .ofText "telem"), ("mcu_pong_ok", .bool true),
      ("link", .ofFields [("rc_ok", .bool s.status.radioOk),
        ("wifi_ok", .bool s.status.wirelessOk),
        ("failsafe", .bool s.status.failsafeActive)])]
    ++ (match s.motion with
        | some m => [("imu", m.sensorJson), ("calib", m.calibrationJson)]
        | none => [])
    ++ [("act", .ofFields (driveFields s.throttle s.steering))])

/-- The text of a snapshot. -/
def text (s : Snapshot) : String :=
  s.toJson.print

end Snapshot

end ModelCar
