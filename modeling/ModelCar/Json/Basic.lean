import ModelCar.Number.Layout

/-!
# JSON values

A `Json` is a JSON text up to blanks: numerals and strings are kept as they are
written.  `text?` and the number readers say what a written leaf stands for, `ofText`
and `ofSingle` write one.  A string whose escapes leave half of a surrogate pair
alone stands for no text, and a numeral beyond the range of `Float` for no number; a
value without such leaves, and not nested too deeply, is `isSound`.
-/

namespace ModelCar

/-- A JSON value.  A string is kept as the characters between its quotation marks. -/
inductive Json where
  | null
  | bool (value : Bool)
  | numeral (value : Numeral)
  | quoted (body : List Char)
  | array (items : List Json)
  | object (fields : List (List Char × Json))
deriving Inhabited

namespace Json

/-! ### Strings -/

/-- The number that a hexadecimal digit stands for. -/
def hexDigit? (c : Char) : Option Nat :=
  if '0' ≤ c ∧ c ≤ '9' then some (c.toNat - '0'.toNat)
  else if 'a' ≤ c ∧ c ≤ 'f' then some (c.toNat - 'a'.toNat + 10)
  else if 'A' ≤ c ∧ c ≤ 'F' then some (c.toNat - 'A'.toNat + 10)
  else none

/-- The number that four hexadecimal digits stand for. -/
def hexUnit? (a b c d : Char) : Option Nat := do
  pure (((← hexDigit? a) * 16 + (← hexDigit? b)) * 256
    + (← hexDigit? c) * 16 + (← hexDigit? d))

/-- The character that an escape of one letter stands for. -/
def shortEscape? : Char → Option Char
  | '"' => some '"'
  | '\\' => some '\\'
  | '/' => some '/'
  | 'b' => some '\x08'
  | 'f' => some '\x0C'
  | 'n' => some '\n'
  | 'r' => some '\r'
  | 't' => some '\t'
  | _ => none

/-- The text that the inside of a string stands for, unless it has a bad escape. -/
def unescape? : List Char → Option (List Char)
  | [] => some []
  | '\\' :: 'u' :: a :: b :: c :: d :: rest => do
    let unit ← hexUnit? a b c d
    if 0xDC00 ≤ unit ∧ unit < 0xE000 then none
    else if 0xD800 ≤ unit ∧ unit < 0xDC00 then
      match rest with
      | '\\' :: 'u' :: a' :: b' :: c' :: d' :: rest' =>
        let low ← hexUnit? a' b' c' d'
        if 0xDC00 ≤ low ∧ low < 0xE000 then
          let c := Char.ofNat (0x10000 + (unit - 0xD800) * 1024 + (low - 0xDC00))
          (c :: ·) <$> unescape? rest'
        else none
      | _ => none
    else (Char.ofNat unit :: ·) <$> unescape? rest
  | '\\' :: c :: rest => do
    let c ← shortEscape? c
    (c :: ·) <$> unescape? rest
  | '\\' :: [] => none
  | c :: rest => (c :: ·) <$> unescape? rest

/-- A hexadecimal digit. -/
def hexDigit (n : Nat) : Char :=
  if n < 10 then Char.ofNat ('0'.toNat + n) else Char.ofNat ('a'.toNat + (n - 10))

/-- A character inside a string. -/
def escapeChar (c : Char) : List Char :=
  match c with
  | '"' => ['\\', '"']
  | '\\' => ['\\', '\\']
  | '\x08' => ['\\', 'b']
  | '\x0C' => ['\\', 'f']
  | '\n' => ['\\', 'n']
  | '\r' => ['\\', 'r']
  | '\t' => ['\\', 't']
  | _ =>
    if c.toNat < 0x20 then
      ['\\', 'u', '0', '0', hexDigit (c.toNat / 16), hexDigit (c.toNat % 16)]
    else [c]

/-- The inside of the string for a text. -/
def escape (text : List Char) : List Char :=
  text.flatMap escapeChar

/-- The string for a text. -/
def ofText (text : String) : Json :=
  quoted (escape text.toList)

/-- The text of a string. -/
def text? : Json → Option String
  | quoted body => String.ofList <$> unescape? body
  | _ => none

/-- An object whose field names need no escapes. -/
def ofFields (fields : List (String × Json)) : Json :=
  object (fields.map fun (name, value) => (name.toList, value))

/-! ### Numbers -/

/-- The number of an integer. -/
def ofInt (i : Int) : Json :=
  numeral (.ofInt i)

/-- The number of a `Float32`; infinities and what is not a number become null. -/
def ofSingle (x : Float32) : Json :=
  match Layout.json32.numeral? .binary32 x.toModel.unpack with
  | some n => numeral n
  | none => null

/-- The number of a `Float`; infinities and what is not a number become null. -/
def ofDouble (x : Float) : Json :=
  match Layout.json64.numeral? .binary64 x.toModel.unpack with
  | some n => numeral n
  | none => null

/-- The truth value of a value. -/
def bool? : Json → Option Bool
  | bool b => some b
  | _ => none

/-- The natural number of a value, if it is below a bound. -/
def below? (bound : Nat) : Json → Option Nat
  | numeral n => do
    let i ← n.toInt?
    if 0 ≤ i ∧ i < bound then some i.toNat else none
  | _ => none

/-- The `Float32` nearest to a number.  An integer is rounded at once, any other
number through `Float`. -/
def single? : Json → Option Float32
  | numeral n =>
    match n.toInt? with
    | some i => some (.ofInt i)
    | none => narrow <$> n.toFloat?
  | _ => none

/-! ### Whole values -/

mutual
/-- The number of arrays and objects around the most deeply nested value. -/
def depth : Json → Nat
  | array items => depthOfItems items + 1
  | object fields => depthOfFields fields + 1
  | _ => 0

def depthOfItems : List Json → Nat
  | [] => 0
  | value :: rest => max value.depth (depthOfItems rest)

def depthOfFields : List (List Char × Json) → Nat
  | [] => 0
  | (_, value) :: rest => max value.depth (depthOfFields rest)
end

mutual
/-- Every string stands for a text and every numeral for a number. -/
def isMeaningful : Json → Bool
  | numeral n => n.toInt?.isSome || n.toFloat?.isSome
  | quoted body => (unescape? body).isSome
  | array items => areMeaningful items
  | object fields => fieldsAreMeaningful fields
  | _ => true

def areMeaningful : List Json → Bool
  | [] => true
  | value :: rest => value.isMeaningful && areMeaningful rest

def fieldsAreMeaningful : List (List Char × Json) → Bool
  | [] => true
  | (name, value) :: rest =>
    (unescape? name).isSome && value.isMeaningful && fieldsAreMeaningful rest
end

/-- The deepest nesting that the car reads. -/
def maxDepth : Nat := 127

/-- A value that can be read as a whole. -/
def isSound (value : Json) : Bool :=
  value.depth ≤ maxDepth && value.isMeaningful

mutual
/-- The same value with the fields of every object in the order of their names. -/
def sorted : Json → Json
  | array items => array (sortedItems items)
  | object fields =>
    object ((sortedFields fields).mergeSort fun f g => String.ofList f.1 ≤ String.ofList g.1)
  | value => value

def sortedItems : List Json → List Json
  | [] => []
  | value :: rest => value.sorted :: sortedItems rest

def sortedFields : List (List Char × Json) → List (List Char × Json)
  | [] => []
  | (name, value) :: rest => (name, value.sorted) :: sortedFields rest
end

end Json

end ModelCar
