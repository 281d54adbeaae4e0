import ModelCar.Number.Scalar

/-!
# Motion samples

Vectors of three coordinates, and the samples of the motion sensor: an acceleration
in multiples of `g` and a rate of rotation in degrees per second.
-/

namespace ModelCar

/-- A vector of three coordinates. -/
structure Vector3 (α : Type) where
  x : α
  y : α
  z : α
deriving DecidableEq, Inhabited, Repr

namespace Vector3

/-- The vector of the results of a function on the coordinates. -/
@[inline] def map {α β : Type} (f : α → β) (v : Vector3 α) : Vector3 β :=
  ⟨f v.x, f v.y, f v.z⟩

/-- The vector of the results of a function on the coordinates of two vectors. -/
@[inline] def zipWith {α β γ : Type} (f : α → β → γ) (v : Vector3 α) (w : Vector3 β) :
    Vector3 γ :=
  ⟨f v.x w.x, f v.y w.y, f v.z w.z⟩

/-- A property of every coordinate. -/
@[inline] def all {α : Type} (p : α → Bool) (v : Vector3 α) : Bool :=
  p v.x && p v.y && p v.z

/-- A property of some coordinate. -/
@[inline] def any {α : Type} (p : α → Bool) (v : Vector3 α) : Bool :=
  p v.x || p v.y || p v.z

/-- The coordinates in order. -/
def toList {α : Type} (v : Vector3 α) : List α :=
  [v.x, v.y, v.z]

variable {α : Type} [Scalar α]

instance : Sub (Vector3 α) := ⟨zipWith (· - ·)⟩

instance : Add (Vector3 α) := ⟨zipWith (· + ·)⟩

instance : Neg (Vector3 α) := ⟨map (- ·)⟩

/-- The inner product. -/
@[inline] def dot (v w : Vector3 α) : α :=
  v.x * w.x + v.y * w.y + v.z * w.z

end Vector3

/-- A sample of the motion sensor. -/
structure Sample (α : Type) where
  acceleration : Vector3 α
  rate : Vector3 α
deriving DecidableEq, Inhabited, Repr

end ModelCar
