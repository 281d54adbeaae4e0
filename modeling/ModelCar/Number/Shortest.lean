import ModelCar.Number.Binary
import ModelCar.Number.Numeral

/-!
# Shortest decimals

`Decimal.shortest` finds the decimal with the fewest digits that reads back as a
given binary number.  All decimals between the midpoints to the two neighbours of
the number read back as it, the midpoints themselves exactly when its mantissa is
even.  For one, two, three digits and so on, the two points of the decimal grid next
to the number are tested in exact arithmetic; the first grid with a hit wins, and of
two hits the nearer one.
-/

namespace ModelCar

open Float.Model (Format)

/-- The number `coefficient * 10 ^ exponent`. -/
structure Decimal where
  coefficient : Nat
  exponent : Int
deriving DecidableEq, Repr

namespace Decimal

/-- Which of two equally near decimals is taken: the one with an even last digit, or
the larger one. -/
inductive Tie where
  | even
  | up
deriving DecidableEq, Repr

/-- A positive binary number between its neighbours: `value / unit` is the number,
`below / unit` and `above / unit` are the distances to the two midpoints. -/
structure Window where
  value : Nat
  below : Nat
  above : Nat
  unit : Nat
  closed : Bool

/-- The window of `m * 2 ^ e` in a format.  Below a power of two the neighbour is
only half as far, except at the bottom of the range. -/
def Window.of (f : Format) (m : Nat) (e : Int) : Window :=
  let narrow := m = 1 <<< f.mantissaBitsWithoutImplicit ∧ f.minExponent < e
  let below := if narrow then 1 else 2
  let closed := m % 2 = 0
  match e - 2 with
  | .ofNat k => ⟨4 * m <<< k, below <<< k, 2 <<< k, 1, closed⟩
  | .negSucc k => ⟨4 * m, below, 2, 1 <<< (k + 1), closed⟩

/-- The window on a scale `10 ^ s` times as large. -/
def Window.scale (w : Window) : Int → Window
  | .ofNat s =>
    { w with
      value := w.value * Nat.pow 10 s
      below := w.below * Nat.pow 10 s
      above := w.above * Nat.pow 10 s }
  | .negSucc s => { w with unit := w.unit * Nat.pow 10 (s + 1) }

/-- The integer in a window that is nearest to its number, if one of the two next to
the number is there. -/
def Window.pick (w : Window) (tie : Tie) : Option Nat :=
  let low := w.value / w.unit
  let rest := w.value % w.unit
  let hitsLow := rest < w.below ∨ (w.closed ∧ rest = w.below)
  let hitsHigh := w.unit - rest < w.above ∨ (w.closed ∧ w.unit - rest = w.above)
  if hitsLow ∧ hitsHigh then
    if 2 * rest < w.unit then some low
    else if w.unit < 2 * rest then some (low + 1)
    else
      match tie with
      | .up => some (low + 1)
      | .even => some (low + low % 2)
  else if hitsLow then some low
  else if hitsHigh then some (low + 1)
  else none

/-- The exponent of the first digit of the number of a window. -/
def Window.magnitude (w : Window) : Int :=
  if w.unit ≤ w.value then
    ((Numeral.digits (w.value / w.unit)).length : Int) - 1
  else
    -(Numeral.digits ((w.unit - 1) / w.value)).length

/-- Searches the grids of `places`, `places + 1`, … digits, `fuel` of them. -/
def search (w : Window) (tie : Tie) (magnitude : Int) (places : Nat) : Nat → Decimal
  | 0 => ⟨w.value / w.unit, 0⟩
  | fuel + 1 =>
    let shift := (places : Int) - 1 - magnitude
    match (w.scale shift).pick tie with
    | some n => if n = Nat.pow 10 places then ⟨1, magnitude + 1⟩ else ⟨n, -shift⟩
    | none => search w tie magnitude (places + 1) fuel

/-- The decimal with the fewest digits among those that read back as `m * 2 ^ e`; of
several, the one nearest to it.  Seventeen digits are always enough. -/
def shortest (f : Format) (tie : Tie) (m : Nat) (e : Int) : Decimal :=
  let w := Window.of f m e
  search w tie w.magnitude 1 17

/-- The digits of a decimal. -/
def digits (d : Decimal) : List Char :=
  Numeral.digits d.coefficient

/-- The exponent of the first digit of a decimal. -/
def magnitude (d : Decimal) : Int :=
  d.exponent + (d.digits.length - 1 : Nat)

end Decimal

end ModelCar
