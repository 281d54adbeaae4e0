import ModelCar.Motion.Sample

/-!
# Quaternions

Rotations as quaternions of norm one: their product, their normalization, and the rotation
to given axes.
-/

namespace ModelCar

/-- A quaternion. -/
structure Quaternion (α : Type) where
  w : α
  x : α
  y : α
  z : α
deriving DecidableEq, Inhabited

namespace Quaternion

variable {α : Type} [Scalar α]

/-- The rotation that moves nothing. -/
def identity : Quaternion α := ⟨1.0, 0.0, 0.0, 0.0⟩

/-- The sum of the squares. -/
@[inline] def normSq (q : Quaternion α) : α :=
  q.w * q.w + q.x * q.x + q.y * q.y + q.z * q.z

/-- The norm. -/
def norm (q : Quaternion α) : α :=
  Scalar.sqrt q.normSq

/-- Every component is finite. -/
def isFinite (q : Quaternion α) : Bool :=
  Scalar.isFinite q.w && Scalar.isFinite q.x && Scalar.isFinite q.y && Scalar.isFinite q.z

/-- The smallest norm, exclusive, that can be divided by. -/
def smallestNorm : α := 1.17549435e-38

/-- The quaternion of norm one in the same direction. -/
def normalized? (q : Quaternion α) : Option (Quaternion α) :=
  let n := q.norm
  if ¬ Scalar.isFinite n ∨ n ≤ smallestNorm then none
  else
    let q : Quaternion α := ⟨q.w / n, q.x / n, q.y / n, q.z / n⟩
    if q.isFinite then some q else none

/-- The product of two quaternions, which composes rotations. -/
def product (a b : Quaternion α) : Quaternion α where
  w := a.w * b.w - a.x * b.x - a.y * b.y - a.z * b.z
  x := a.w * b.x + a.x * b.w + a.y * b.z - a.z * b.y
  y := a.w * b.y - a.x * b.z + a.y * b.w + a.z * b.x
  z := a.w * b.z + a.x * b.y - a.y * b.x + a.z * b.w

instance : Mul (Quaternion α) := ⟨product⟩

/-- The rotation that takes the three axes to the given ones, which have length one and are
perpendicular to each other.  It is computed from the largest of its components, so that no
division by a number near zero occurs. -/
def ofAxes (first second third : Vector3 α) : Quaternion α :=
  let trace := first.x + second.y + third.z
  if 0.0 < trace then
    let s := 0.5 / Scalar.sqrt (trace + 1.0)
    { w := 0.25 / s
      x := (second.z - third.y) * s
      y := (third.x - first.z) * s
      z := (first.y - second.x) * s }
  else if second.y ≤ first.x ∧ third.z ≤ first.x then
    let s := 2.0 * Scalar.sqrt (1.0 + first.x - second.y - third.z)
    { w := (second.z - third.y) / s
      x := 0.25 * s
      y := (second.x + first.y) / s
      z := (third.x + first.z) / s }
  else if third.z ≤ second.y then
    let s := 2.0 * Scalar.sqrt (1.0 + second.y - first.x - third.z)
    { w := (third.x - first.z) / s
      x := (second.x + first.y) / s
      y := 0.25 * s
      z := (third.y + second.z) / s }
  else
    let s := 2.0 * Scalar.sqrt (1.0 + third.z - first.x - second.y)
    { w := (first.y - second.x) / s
      x := (third.x + first.z) / s
      y := (third.y + second.z) / s
      z := 0.25 * s }

end Quaternion

end ModelCar
