import ModelCar.Number.Scalar

/-!
# The controller

A `Pid` answers an error with a correction from its present size, its integral and its
derivative.  Integral and correction are held within bounds.  The first step after the
start has no derivative, and a step without a positive time does nothing.
-/

namespace ModelCar

/-- The weights of the three parts and the bounds of integral and output, of which the
size counts and not the sign. -/
structure Pid.Gains (α : Type) where
  proportional : α
  integral : α
  derivative : α
  maxIntegral : α
  maxOutput : α
deriving DecidableEq, Inhabited

/-- A controller: its gains, the integral, and the error of the last step. -/
structure Pid (α : Type) where
  gains : Pid.Gains α
  integral : α
  previous : Option α
deriving DecidableEq, Inhabited

namespace Pid

variable {α : Type} [Scalar α]

/-- A controller that does nothing within the usual bounds. -/
def Gains.zero : Gains α := ⟨0.0, 0.0, 0.0, 1.0, 1.0⟩

/-- A controller at the start. -/
def start (gains : Gains α) : Pid α :=
  ⟨gains, 0.0, none⟩

/-- The controller at the start with its present gains. -/
def reset (p : Pid α) : Pid α :=
  start p.gains

/-- `x` held within a bound on both sides of zero. -/
def confine (bound x : α) : α :=
  Scalar.clamp (-Scalar.bound bound) (Scalar.bound bound) x

/-- The rate of change of the error. -/
def slope (p : Pid α) (error seconds : α) : α :=
  match p.previous with
  | none => 0.0
  | some previous => (error - previous) / seconds

/-- The output for an error and the controller after a time in seconds. -/
def step (p : Pid α) (error seconds : α) : α × Pid α :=
  if Scalar.isNaN seconds ∨ seconds ≤ 0.0 then (0.0, p)
  else
    let integral := confine p.gains.maxIntegral (p.integral + error * seconds)
    let output := p.gains.proportional * error + p.gains.integral * integral
      + p.gains.derivative * p.slope error seconds
    (confine p.gains.maxOutput output, ⟨p.gains, integral, some error⟩)

end Pid

end ModelCar
