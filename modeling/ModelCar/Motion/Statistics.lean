import ModelCar.Number.Scalar

/-!
# Mean and variance

`Moments` collects the mean and the variance of values that come one by one, without
keeping the values.
-/

namespace ModelCar

/-- The number of values so far, their mean, and the sum of the squares of their
distances to it. -/
structure Moments (β : Type) where
  count : Nat
  mean : β
  spread : β
deriving DecidableEq, Inhabited

namespace Moments

variable {β : Type} [Scalar β]

/-- No values. -/
def empty : Moments β := ⟨0, 0.0, 0.0⟩

/-- One more value. -/
def push (m : Moments β) (x : β) : Moments β :=
  let count := m.count + 1
  let distance := x - m.mean
  let mean := m.mean + distance / Scalar.ofNat count
  ⟨count, mean, m.spread + distance * (x - mean)⟩

/-- The mean square of the distances to the mean. -/
def variance (m : Moments β) : β :=
  m.spread / Scalar.ofNat m.count

end Moments

end ModelCar
