import ModelCar.Failsafe
import ModelCar.Motion.Calibration
import ModelCar.Stabilization.Tuning

/-!
# The state of the car

What the control loop tells about itself, and the one word for it that the status light
shows.
-/

namespace ModelCar

/-- The state of the car in one word. -/
inductive Condition where
  | idle
  | driving
  | calibrating
  | failsafe
deriving DecidableEq, Repr, Inhabited

namespace Condition

/-- The name of a condition. -/
def name : Condition → String
  | idle => "idle"
  | driving => "driving"
  | calibrating => "calibrating"
  | failsafe => "failsafe"

/-- The red, green and blue parts of the status light. -/
def color : Condition → UInt8 × UInt8 × UInt8
  | idle => (40, 40, 40)
  | driving => (0, 255, 0)
  | calibrating => (0, 0, 255)
  | failsafe => (255, 0, 0)

/-- Applied values up to this size count as rest. -/
def restLimit : Float32 := 0.05

/-- The condition of a car.  The failsafe goes before calibration, and this before
driving. -/
def of (failsafe : Failsafe.State) (calibration : Calibration.Status)
    (throttle steering : Float32) : Condition :=
  if failsafe = .active then .failsafe
  else if calibration = .collecting then .calibrating
  else if restLimit < Scalar.larger throttle.abs steering.abs then .driving
  else .idle

end Condition

/-- What the control loop tells about itself. -/
structure Status where
  calibration : Calibration.Status
  stage : Nat
  data : CalibrationData Float32
  failsafe : Failsafe.State
  tuning : Tuning Float32
  throttle : Float32
  steering : Float32
deriving DecidableEq

/-- The condition that a status amounts to. -/
def Status.condition (s : Status) : Condition :=
  .of s.failsafe s.calibration s.throttle s.steering

end ModelCar
