import ModelCar.Number.Scalar

/-!
# Numbers in records

Numbers of four bytes, the low one first.  A number read from a record has to be
finite.
-/

namespace ModelCar.Record

/-- The bytes of a word. -/
def wordBytes (n : UInt32) : List UInt8 :=
  [n.toUInt8, (n >>> 8).toUInt8, (n >>> 16).toUInt8, (n >>> 24).toUInt8]

/-- The word of four bytes. -/
def word (a b c d : UInt8) : UInt32 :=
  a.toUInt32 ||| (b.toUInt32 <<< 8) ||| (c.toUInt32 <<< 16) ||| (d.toUInt32 <<< 24)

/-- The bytes of a number. -/
def numberBytes (x : Float32) : List UInt8 :=
  wordBytes x.toBits

/-- The given count of numbers at the beginning of some bytes, if they are there and
finite. -/
def numbers? : Nat → List UInt8 → Option (List Float32)
  | 0, _ => some []
  | n + 1, a :: b :: c :: d :: rest =>
    let x := Float32.ofBits (word a b c d)
    if x.isFinite then (x :: ·) <$> numbers? n rest else none
  | _ + 1, _ => none

/-- The byte of a truth value. -/
def byteOfBool (b : Bool) : UInt8 :=
  if b then 1 else 0

/-- Why bytes are no record. -/
inductive Fault where
  | tooShort
  | badVersion
  | badMagic
  | notFinite
deriving DecidableEq, Repr

/-- The wording of a fault. -/
def Fault.message : Fault → String
  | tooShort => "blob too short"
  | badVersion => "unsupported blob version"
  | badMagic => "bad magic"
  | notFinite => "non-finite value"

end ModelCar.Record
