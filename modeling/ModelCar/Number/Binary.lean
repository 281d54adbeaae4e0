import ModelCar.Number.Scalar

/-!
# Exact readings of binary numbers

A finite `Float32` or `Float` stands for a sign, a positive mantissa and a power of
two.  From this exact reading come the conversions between the two formats, which
round to the nearest value with ties to even, and the rounding to integers, where a
half goes away from zero.
-/

namespace ModelCar

open Float.Model Float.Model.UnpackedFloat

/-- The value in `Float` of a `Float32`; every `Float32` has one. -/
def widen (x : Float32) : Float :=
  match x.toModel.unpack with
  | .finite s m e _ => .ofModel (.pack (UnpackedFloat.round .binary64 s m e))
  | special => .ofModel (.pack special)

/-- The `Float32` nearest to a `Float`, ties to even, with overflow to infinity. -/
def narrow (x : Float) : Float32 :=
  match x.toModel.unpack with
  | .finite s m e _ => .ofModel (.pack (UnpackedFloat.round .binary32 s m e))
  | special => .ofModel (.pack special)

instance : Precision Float32 Float := ⟨widen, narrow⟩

/-- The natural number nearest to `m * 2 ^ e`, a half going up. -/
def nearestNat (m : Nat) : Int → Nat
  | .ofNat e => m <<< e
  | .negSucc e => (m >>> e + 1) / 2

/-- The integer nearest to `x`, a half going away from zero, held between `lo` and
`hi`.  What is not a number counts as `0`. -/
def nearestInt (lo hi : Int) (x : Float32) : Int :=
  match x.toModel.unpack with
  | .notANumber => 0
  | .zero _ => 0
  | .infinity .positive => hi
  | .infinity .negative => lo
  | .finite .positive m e _ => max lo (min hi (nearestNat m e))
  | .finite .negative m e _ => max lo (min hi (-nearestNat m e))

instance : Integral Float32 := ⟨nearestInt, Float32.ofInt⟩

end ModelCar
