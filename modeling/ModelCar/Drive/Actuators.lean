import ModelCar.Drive.Controls
import ModelCar.Drive.Slew

/-!
# The actuators

Motor and servo follow their target at a limited speed, at a pace of their own.
-/

namespace ModelCar

/-- The values that were last applied to motor and servo, and the pace of new ones. -/
structure Actuators where
  pace : Pace
  throttle : Float32 := 0.0
  steering : Float32 := 0.0
deriving DecidableEq

namespace Actuators

/-- Both values at rest at once. -/
def stopped (a : Actuators) : Actuators :=
  { a with throttle := 0.0, steering := 0.0 }

/-- The actuators when they have followed their target, if it is time to. -/
def follow (a : Actuators) (now : Millis) (target : Controls)
    (throttleSpeed steeringSpeed : Float32) : Option Actuators :=
  (a.pace.due now).map fun elapsed =>
    { pace := a.pace.restart now
      throttle := slew target.throttle a.throttle throttleSpeed elapsed
      steering := slew target.steering a.steering steeringSpeed elapsed }

end Actuators

end ModelCar
