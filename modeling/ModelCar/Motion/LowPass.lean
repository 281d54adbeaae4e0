import ModelCar.Number.Scalar

/-!
# The low-pass filter

A Butterworth filter of second order.  Its coefficients are rational functions of its
damping and of the tangent of half the cutoff angle, so `Coefficients.ofDamping` makes
sense over any number system; the tangent itself is taken of `Float32`.  A filter
without coefficients lets its input through.
-/

namespace ModelCar

/-- The coefficients of a filter of second order, for inputs and for outputs. -/
structure Coefficients (α : Type) where
  b0 : α
  b1 : α
  b2 : α
  a1 : α
  a2 : α
deriving DecidableEq, Inhabited

/-- A low-pass filter with the settings that it was last given, and its last two inputs
and outputs. -/
structure LowPass (α : Type) where
  cutoff : α
  rate : α
  coefficients : Option (Coefficients α)
  x1 : α
  x2 : α
  y1 : α
  y2 : α
deriving DecidableEq, Inhabited

section
variable {α : Type} [Scalar α]

/-- The square root of two, to the precision of `Float32`. -/
def rootTwo : α := 1.41421356

/-- The coefficients of a low-pass filter with a damping, for a tangent of half the cutoff
angle. -/
def Coefficients.ofDamping (damping k : α) : Coefficients α :=
  let k2 := k * k
  let norm := 1.0 / (1.0 + damping * k + k2)
  let b0 := k2 * norm
  { b0 := b0
    b1 := 2.0 * b0
    b2 := b0
    a1 := 2.0 * (k2 - 1.0) * norm
    a2 := (1.0 - damping * k + k2) * norm }

/-- The coefficients of a Butterworth filter, whose damping is the square root of two. -/
def Coefficients.ofTangent (k : α) : Coefficients α :=
  .ofDamping rootTwo k

namespace LowPass

/-- A filter that was never configured. -/
def unset : LowPass α :=
  ⟨0.0, 0.0, none, 0.0, 0.0, 0.0, 0.0⟩

/-- The same filter at rest. -/
def reset (f : LowPass α) : LowPass α :=
  { f with x1 := 0.0, x2 := 0.0, y1 := 0.0, y2 := 0.0 }

/-- The filter has coefficients. -/
def isConfigured (f : LowPass α) : Bool :=
  f.coefficients.isSome

/-- The filter after an input; its output is `y1`. -/
def step (f : LowPass α) (x : α) : LowPass α :=
  match f.coefficients with
  | none => { f with y1 := x }
  | some c =>
    let y := c.b0 * x + c.b1 * f.x1 + c.b2 * f.x2 - c.a1 * f.y1 - c.a2 * f.y2
    { f with x1 := x, x2 := f.x1, y1 := y, y2 := f.y1 }

/-- There is a filter for a cutoff frequency below half the sampling rate. -/
def isAdmissible (cutoff rate : α) : Bool :=
  Scalar.isFinite cutoff ∧ Scalar.isFinite rate ∧ (0.0 : α) < cutoff ∧ (0.0 : α) < rate
    ∧ cutoff < rate * 0.5

end LowPass

end

namespace LowPass

/-- The tangent of half the cutoff angle. -/
def tangent (cutoff rate : Float32) : Float32 :=
  (Scalar.pi * cutoff / rate).tan

/-- Configures the filter and brings it to rest, if its settings are admissible.
Otherwise it lets its input through from now on. -/
def configure (f : LowPass Float32) (cutoff rate : Float32) : LowPass Float32 :=
  if isAdmissible cutoff rate then
    reset { f with
      cutoff := cutoff
      rate := rate
      coefficients := some (.ofTangent (tangent cutoff rate)) }
  else { f with coefficients := none }

end LowPass

end ModelCar
