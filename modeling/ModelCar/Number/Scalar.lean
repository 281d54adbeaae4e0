/-!
# Number systems

The filters and controllers of the car are written once, over any number system
`α` with `Scalar α`.  The car runs them on `Float32`, with sums over many samples
kept in `Float`; over an ordered field with square roots the same definitions are
the textbook algorithms.  `Precision α β` connects the system of the samples with
the wider one of the sums, and `Integral α` connects a system with the integers.
-/

namespace ModelCar

/-- What a number system offers to the car's filters and controllers. -/
class Scalar (α : Type) extends Add α, Sub α, Mul α, Div α, Neg α, LT α, LE α,
    OfScientific α where
  /-- Comparison is decidable, and false as soon as one side is not a number. -/
  decidableLT (x y : α) : Decidable (x < y)
  decidableLE (x y : α) : Decidable (x ≤ y)
  /-- The element nearest to a natural number. -/
  ofNat : Nat → α
  abs : α → α
  sqrt : α → α
  isNaN : α → Bool
  isFinite : α → Bool

instance Scalar.instDecidableLT {α : Type} [Scalar α] (x y : α) : Decidable (x < y) :=
  Scalar.decidableLT x y

instance Scalar.instDecidableLE {α : Type} [Scalar α] (x y : α) : Decidable (x ≤ y) :=
  Scalar.decidableLE x y

/-- The system `α` of the samples and the wider system `β` in which sums over many
samples are kept. -/
class Precision (α β : Type) where
  widen : α → β
  narrow : β → α

/-- A system `α` whose numbers are rounded to integers. -/
class Integral (α : Type) where
  /-- The integer nearest to a number, a half going away from zero, held between the two
  given ones. -/
  nearestInt : Int → Int → α → Int
  /-- The element nearest to an integer. -/
  ofInt : Int → α

instance : Scalar Float32 where
  decidableLT := Float32.decLt
  decidableLE := Float32.decLe
  ofNat := Float32.ofNat
  abs := Float32.abs
  sqrt := Float32.sqrt
  isNaN := Float32.isNaN
  isFinite := Float32.isFinite

instance : Scalar Float where
  decidableLT := Float.decLt
  decidableLE := Float.decLe
  ofNat := Float.ofNat
  abs := Float.abs
  sqrt := Float.sqrt
  isNaN := Float.isNaN
  isFinite := Float.isFinite

namespace Scalar

variable {α : Type} [Scalar α]

/-- The ratio of the circumference of a circle to its diameter, to the precision of
`Float32`. -/
def pi : α := 3.14159274

/-- `x` held between `lo` and `hi`.  What is not a number stays as it is. -/
@[inline] def clamp (lo hi x : α) : α :=
  if x < lo then lo else if hi < x then hi else x

/-- `x` held between `-1` and `1`; what is not a number counts as `0`. -/
@[inline] def clampUnit (x : α) : α :=
  if isNaN x then 0.0 else clamp (-1.0) 1.0 x

/-- The bound of a symmetric interval given with either sign; what is not a number
counts as `0`. -/
@[inline] def bound (x : α) : α :=
  if isNaN x then 0.0 else abs x

/-- The larger of two numbers, where the other one wins over what is not a number. -/
@[inline] def larger (x y : α) : α :=
  if isNaN x then y else if isNaN y then x else if x < y then y else x

end Scalar

end ModelCar
