/-!
# Numerals

A `Numeral` is a number as it is written: a sign, the digits before the point, the
digits after it, and an exponent of ten.  `Numeral.toFloat?` is the value that the
car reads from one.  It collects the leading digits that fit into 64 bits and scales
them by one power of ten in `Float`, so that a long numeral may be off by its last
bits, and a numeral beyond the range of `Float` has no value.
-/

namespace ModelCar

/-- A number as it is written.  All parts but the sign of the exponent are digits; an
exponent that carries no sign has an empty one. -/
structure Numeral where
  negative : Bool
  whole : List Char
  fraction : Option (List Char)
  exponent : Option (List Char × List Char)
deriving DecidableEq, Inhabited, Repr

namespace Numeral

/-- The text of a numeral. -/
def toList (n : Numeral) : List Char :=
  (if n.negative then ['-'] else [])
    ++ n.whole
    ++ (match n.fraction with
        | some digits => '.' :: digits
        | none => [])
    ++ (match n.exponent with
        | some (sign, digits) => 'e' :: sign ++ digits
        | none => [])

/-- The number that a digit stands for. -/
def digit (c : Char) : Nat :=
  c.toNat - '0'.toNat

/-- The number that a list of decimal digits stands for. -/
def ofDigits (digits : List Char) : Nat :=
  digits.foldl (fun n c => 10 * n + digit c) 0

/-- The digits of a natural number, without leading zeros. -/
def digits (n : Nat) : List Char :=
  Nat.toDigits 10 n

/-- The numeral of an integer. -/
def ofInt (i : Int) : Numeral :=
  ⟨i < 0, digits i.natAbs, none, none⟩

/-- Appends digits to a number below `2 ^ 64` for as long as it stays there; the
digits that did not fit come back. -/
def absorb (n : Nat) : List Char → Nat × List Char
  | [] => (n, [])
  | c :: rest =>
    if 10 * n + digit c < UInt64.size then absorb (10 * n + digit c) rest else (n, c :: rest)

/-- The powers of ten of `Float`. -/
def tenTo (n : Nat) : Float :=
  .ofScientific 1 false n

/-- `f * 10 ^ e`, with one rounding for every started 308 decades, and nothing beyond
the range of `Float`. -/
def scale (f : Float) (e : Int) : Option Float :=
  if e < -308 then
    if f == 0 then some f else scale (f / tenTo 308) (e + 308)
  else if e < 0 then
    some (f / tenTo e.natAbs)
  else if e ≤ 308 then
    let scaled := f * tenTo e.natAbs
    if scaled.isInf then none else some scaled
  else if f == 0 then some f
  else none
termination_by (-e).toNat
decreasing_by omega

/-- The exponent of ten that a numeral carries. -/
def exponentValue (n : Numeral) : Int :=
  match n.exponent with
  | none => 0
  | some (['-'], digits) => -ofDigits digits
  | some (_, digits) => ofDigits digits

/-- The integer that a numeral without point and exponent stands for, if it fits into
64 bits, with or without a sign.  A negative zero is no integer. -/
def toInt? (n : Numeral) : Option Int :=
  match n.fraction, n.exponent with
  | none, none =>
    let size := ofDigits n.whole
    if n.negative then
      if 0 < size ∧ size ≤ UInt64.size / 2 then some (-size) else none
    else
      if size < UInt64.size then some size else none
  | _, _ => none

/-- The value of a numeral, unless it is beyond the range of `Float`. -/
def toFloat? (n : Numeral) : Option Float :=
  let fraction := n.fraction.getD []
  let (significand, lost) := absorb 0 n.whole
  let (significand, unread) := absorb significand fraction
  let exponent : Int := lost.length - (fraction.length - unread.length : Nat)
  (scale (.ofNat significand) (exponent + n.exponentValue)).map fun f =>
    if n.negative then -f else f

end Numeral

end ModelCar
