/-!
# Text and bytes

`encode` is the UTF-8 form of a list of characters.  `decode` reads any bytes as text
by putting the replacement character for each longest piece that begins a character
but does not complete it, and for each byte that begins none.  `keep n` is the longest
beginning of a text that has at most `n` bytes, and `cut` is how many bytes that are,
found in the bytes alone by going back to the beginning of a character.
-/

namespace ModelCar.Utf8

/-- The bytes of a text. -/
def encode (text : List Char) : List UInt8 :=
  text.flatMap String.utf8EncodeChar

/-- The longest beginning of a text that has at most `n` bytes. -/
def keep (n : Nat) : List Char → List Char
  | [] => []
  | c :: rest => if c.utf8Size ≤ n then c :: keep (n - c.utf8Size) rest else []

/-! ### Cutting -/

/-- A byte begins a character unless it lies between `80` and `BF`. -/
def isFirst (byte : UInt8) : Bool :=
  byte < 0x80 ∨ 0xC0 ≤ byte

/-- No character has bytes on both sides of a place in the bytes of a text. -/
def isBoundary (bytes : List UInt8) (n : Nat) : Bool :=
  n = 0 ∨ n = bytes.length ∨ bytes[n]?.any isFirst

/-- The first boundary on the way back from a place, byte by byte; none, if the way leads
past the first byte. -/
def boundaryBefore? (bytes : List UInt8) : Nat → Option Nat
  | 0 => if isBoundary bytes 0 then some 0 else none
  | n + 1 => if isBoundary bytes (n + 1) then some (n + 1) else boundaryBefore? bytes n

theorem isSome_boundaryBefore? (bytes : List UInt8) (n : Nat) :
  (boundaryBefore? bytes n).isSome
  := by
  induction n with
  | zero => simp [boundaryBefore?, isBoundary]
  | succ n ih =>
      rw [boundaryBefore?]
      split
      · rfl
      · exact ih

/-- How many bytes of a text are left when it is cut to at most `n` bytes between two
characters. -/
def cut (n : Nat) (bytes : List UInt8) : Nat :=
  (boundaryBefore? bytes (min bytes.length n)).get (isSome_boundaryBefore? ..)

/-! ### Reading -/

/-- Stands for bytes that are no text. -/
def replacement : Char := '\uFFFD'

/-- The ranges of the bytes that have to follow a first byte of a character beyond
ASCII; nothing for a byte that begins no character. -/
def followers (first : UInt8) : Option (List (UInt8 × UInt8)) :=
  if first < 0xC2 then none
  else if first < 0xE0 then some [(0x80, 0xBF)]
  else if first = 0xE0 then some [(0xA0, 0xBF), (0x80, 0xBF)]
  else if first = 0xED then some [(0x80, 0x9F), (0x80, 0xBF)]
  else if first < 0xF0 then some [(0x80, 0xBF), (0x80, 0xBF)]
  else if first = 0xF0 then some [(0x90, 0xBF), (0x80, 0xBF), (0x80, 0xBF)]
  else if first < 0xF4 then some [(0x80, 0xBF), (0x80, 0xBF), (0x80, 0xBF)]
  else if first = 0xF4 then some [(0x80, 0x8F), (0x80, 0xBF), (0x80, 0xBF)]
  else none

/-- How many of the leading bytes lie in the ranges given for them. -/
def matching : List (UInt8 × UInt8) → List UInt8 → Nat
  | (lo, hi) :: ranges, b :: bytes =>
    if lo ≤ b ∧ b ≤ hi then matching ranges bytes + 1 else 0
  | _, _ => 0

/-- The code point of a complete character: the low bits of its first byte, then six
bits of each follower. -/
def codePoint (first : UInt8) (rest : List UInt8) : Nat :=
  let lead := first.toNat % (1 <<< (6 - rest.length))
  rest.foldl (fun n b => 64 * n + b.toNat % 64) lead

/-- The text of any bytes. -/
def decode : List UInt8 → List Char
  | [] => []
  | b :: rest =>
    if b < 0x80 then
      Char.ofNat b.toNat :: decode rest
    else
      match followers b with
      | none => replacement :: decode rest
      | some ranges =>
        let n := matching ranges rest
        let c := if n = ranges.length then Char.ofNat (codePoint b (rest.take n))
          else replacement
        c :: decode (rest.drop n)
termination_by bytes => bytes.length
decreasing_by all_goals simp +arith

/-- The text whose bytes are given, if they are those of a text. -/
def decode? (bytes : List UInt8) : Option (List Char) :=
  let text := decode bytes
  if encode text = bytes then some text else none

end ModelCar.Utf8
