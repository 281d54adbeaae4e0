import ModelCar.Clock
import ModelCar.Number.Scalar

/-!
# Limited speed of change

An output follows its target at a limited speed.
-/

namespace ModelCar

variable {α : Type} [Scalar α]

/-- The farthest that an output moves in a time at a speed per second. -/
def slewRange (speed : α) (elapsed : Millis) : α :=
  speed * Scalar.ofNat elapsed.toNat / 1000.0

/-- The output after a time, on its way from its present value to the target. -/
def slew (target current speed : α) (elapsed : Millis) : α :=
  let range := slewRange speed elapsed
  let distance := target - current
  if range < distance then current + range
  else if distance < -range then current - range
  else target

end ModelCar
