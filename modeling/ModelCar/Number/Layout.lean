import ModelCar.Number.Shortest

/-!
# Layouts of numbers

A `Layout` says how the shortest decimal of a number is written: for which exponents
of the first digit without an exponent of ten, whether a whole number shows a
fraction, and how an exponent is signed.  `Layout.json32` and `Layout.json64` are
those of the car's JSON texts, `Layout.plain` and `Layout.detailed` those of its log.
`fixed` writes a number with a given count of digits after the point instead.
-/

namespace ModelCar

open Float.Model Float.Model.UnpackedFloat

/-- How the shortest decimal of a number is written. -/
structure Layout where
  /-- The exponents of the first digit for which no exponent of ten is written;
  without bounds there never is one. -/
  positional : Option (Int × Int)
  /-- A whole number is written with the fraction `.0`. -/
  fraction : Bool
  /-- A positive exponent is written with its sign. -/
  plus : Bool
  tie : Decimal.Tie

namespace Layout

/-- `Float32` in a JSON text. -/
def json32 : Layout := ⟨some (-6, 12), true, true, .even⟩

/-- `Float` in a JSON text. -/
def json64 : Layout := ⟨some (-5, 15), true, true, .even⟩

/-- A quantity in a log line. -/
def plain : Layout := ⟨none, false, false, .up⟩

/-- A coordinate in a log line. -/
def detailed : Layout := ⟨some (-4, 15), true, false, .up⟩

/-- Digits with the point after the one of exponent zero. -/
def place (fraction : Bool) (digits : List Char) (magnitude : Int) :
    List Char × Option (List Char) :=
  match magnitude with
  | .ofNat k =>
    if digits.length ≤ k + 1 then
      (digits ++ List.replicate (k + 1 - digits.length) '0',
        if fraction then some ['0'] else none)
    else
      (digits.take (k + 1), some (digits.drop (k + 1)))
  | .negSucc k => (['0'], some (List.replicate k '0' ++ digits))

/-- The numeral of a decimal with a sign. -/
def write (l : Layout) (negative : Bool) (d : Decimal) : Numeral :=
  let positional :=
    match l.positional with
    | none => true
    | some (lowest, highest) => lowest ≤ d.magnitude ∧ d.magnitude ≤ highest
  if positional then
    let (whole, fraction) := place l.fraction d.digits d.magnitude
    ⟨negative, whole, fraction, none⟩
  else
    let sign := if d.magnitude < 0 then ['-'] else if l.plus then ['+'] else []
    let rest := d.digits.drop 1
    ⟨negative, d.digits.take 1, if rest.isEmpty then none else some rest,
      some (sign, Numeral.digits d.magnitude.natAbs)⟩

/-- The numeral of a number read exactly; infinities and what is not a number have
none. -/
def numeral? (l : Layout) (f : Format) : UnpackedFloat → Option Numeral
  | .notANumber => none
  | .infinity _ => none
  | .zero s => some (l.write (s == .negative) ⟨0, 0⟩)
  | .finite s m e _ => some (l.write (s == .negative) (Decimal.shortest f l.tie m e))

/-- The text of a `Float32` in the log. -/
def text (l : Layout) (x : Float32) : String :=
  match l.numeral? .binary32 x.toModel.unpack with
  | some n => String.ofList n.toList
  | none => if x.isNaN then "NaN" else if x < 0 then "-inf" else "inf"

end Layout

/-- The integer nearest to `m * 2 ^ e`, a half going to the even neighbour. -/
def nearestEven (m : Nat) : Int → Nat
  | .ofNat e => m <<< e
  | .negSucc e =>
    let unit := 1 <<< (e + 1)
    let low := m / unit
    let rest := m % unit
    if 2 * rest < unit then low
    else if unit < 2 * rest then low + 1
    else low + low % 2

/-- The numeral of a number with a given count of digits after the point, rounded
from its exact value. -/
def fixedNumeral? (places : Nat) : UnpackedFloat → Option Numeral
  | .notANumber => none
  | .infinity _ => none
  | .zero s => some (write s 0)
  | .finite s m e _ => some (write s (nearestEven (m * Nat.pow 10 places) e))
where
  /-- Splits off the last `places` digits of a number. -/
  write (s : Sign) (n : Nat) : Numeral :=
    let digits := Numeral.digits (n % Nat.pow 10 places)
    ⟨s == .negative, Numeral.digits (n / Nat.pow 10 places),
      some (List.replicate (places - digits.length) '0' ++ digits), none⟩

/-- The text of a `Float32` in the log with a given count of digits after the point. -/
def fixed (places : Nat) (x : Float32) : String :=
  match fixedNumeral? places x.toModel.unpack with
  | some n => String.ofList n.toList
  | none => if x.isNaN then "NaN" else if x < 0 then "-inf" else "inf"

end ModelCar
