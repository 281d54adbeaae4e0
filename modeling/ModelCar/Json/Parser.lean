import ModelCar.Json.Basic

/-!
# Reading JSON

`Json.parse?` reads exactly the texts of the JSON grammar: no trailing commas, no
comments, no leading zeros, no control characters in strings, nothing but space, tab
and line ends between the tokens, and nothing after the value.  Every reader returns
what it read and the rest of the text, which is shorter.
-/

namespace ModelCar.Json

/-- What a reader takes from a text: a value and the rest, which is shorter. -/
abbrev Taken (α : Type) (text : List Char) :=
  Option (α × { rest : List Char // rest.length < text.length })

/-- The blanks of the grammar. -/
def isSeparator (c : Char) : Bool :=
  c = ' ' ∨ c = '\t' ∨ c = '\n' ∨ c = '\r'

/-- A text without the blanks at its beginning. -/
def skip (text : List Char) : List Char :=
  text.dropWhile isSeparator

theorem length_skip_le (text : List Char) :
  (skip text).length ≤ text.length
  := (List.dropWhile_suffix _).length_le

/-- Splits off the digits at the beginning of a text. -/
def digitsOf (text : List Char) : List Char × List Char :=
  (text.takeWhile Char.isDigit, text.dropWhile Char.isDigit)

/-- The part of a number after the whole part: digits after a point. -/
def fraction? : List Char → Option (Option (List Char) × List Char)
  | '.' :: text =>
    match digitsOf text with
    | ([], _) => none
    | (digits, rest) => some (some digits, rest)
  | text => some (none, text)

/-- The exponent of a number. -/
def exponent? : List Char → Option (Option (List Char × List Char) × List Char)
  | c :: text =>
    if c = 'e' ∨ c = 'E' then
      let (sign, text) :=
        match text with
        | '+' :: text => (['+'], text)
        | '-' :: text => (['-'], text)
        | text => ([], text)
      match digitsOf text with
      | ([], _) => none
      | (digits, rest) => some (some (sign, digits), rest)
    else some (none, c :: text)
  | [] => some (none, [])

/-- A number.  Its whole part is zero or begins with another digit. -/
def numeral? (text : List Char) : Option (Numeral × List Char) := do
  let (negative, text) :=
    match text with
    | '-' :: text => (true, text)
    | text => (false, text)
  match digitsOf text with
  | ([], _) => none
  | ('0' :: _ :: _, _) => none
  | (whole, rest) => do
    let (fraction, rest) ← fraction? rest
    let (exponent, rest) ← exponent? rest
    pure (⟨negative, whole, fraction, exponent⟩, rest)

/-- The inside of a string whose opening quotation mark has been read, up to the
closing one. -/
def body? : List Char → Option (List Char × List Char)
  | [] => none
  | '"' :: rest => some ([], rest)
  | '\\' :: 'u' :: a :: b :: c :: d :: rest => do
    let _ ← hexUnit? a b c d
    let (body, rest) ← body? rest
    pure ('\\' :: 'u' :: a :: b :: c :: d :: body, rest)
  | '\\' :: c :: rest => do
    let _ ← shortEscape? c
    let (body, rest) ← body? rest
    pure ('\\' :: c :: body, rest)
  | c :: rest =>
    if c.toNat < 0x20 ∨ c = '\\' then none
    else do
      let (body, rest) ← body? rest
      pure (c :: body, rest)

/-- Keeps what was read if the rest is shorter than the text. -/
def ifShorter {α : Type} {text : List Char} : Option (α × List Char) → Taken α text
  | some (a, rest) => if h : rest.length < text.length then some (a, ⟨rest, h⟩) else none
  | none => none

/-- Reads a word that stands for a value. -/
def word {text : List Char} (name : String) (value : Json) : Taken Json text :=
  if name.toList.isPrefixOf text then
    ifShorter (some (value, text.drop name.length))
  else none

mutual

/-- Reads a value. -/
def value (text : List Char) : Taken Json text :=
  match text with
  | [] => none
  | '{' :: rest =>
    match h : skip rest with
    | '}' :: rest' =>
      some (.object [], ⟨rest', by
        have := length_skip_le rest
        simp [h] at this ⊢; omega⟩)
    | _ => do
      let (fields, ⟨rest', h'⟩) ← fieldsFrom rest
      pure (.object fields, ⟨rest', by simp; omega⟩)
  | '[' :: rest =>
    match h : skip rest with
    | ']' :: rest' =>
      some (.array [], ⟨rest', by
        have := length_skip_le rest
        simp [h] at this ⊢; omega⟩)
    | _ => do
      let (items, ⟨rest', h'⟩) ← itemsFrom rest
      pure (.array items, ⟨rest', by simp; omega⟩)
  | '"' :: rest => ifShorter ((body? rest).map fun (body, rest) => (.quoted body, rest))
  | 't' :: _ => word "true" (.bool true)
  | 'f' :: _ => word "false" (.bool false)
  | 'n' :: _ => word "null" .null
  | text => ifShorter ((numeral? text).map fun (n, rest) => (.numeral n, rest))
termination_by (text.length, 0)

/-- Reads the values of an array and its closing bracket. -/
def itemsFrom (text : List Char) : Taken (List Json) text :=
  have hs := length_skip_le text
  match value (skip text) with
  | none => none
  | some (item, ⟨rest, h⟩) =>
    match h' : skip rest with
    | ']' :: rest' =>
      some ([item], ⟨rest', by
        have := length_skip_le rest
        simp [h'] at this; omega⟩)
    | ',' :: rest' =>
      have hr : rest'.length < text.length := by
        have := length_skip_le rest
        simp [h'] at this; omega
      do
        let (items, ⟨rest'', h''⟩) ← itemsFrom rest'
        pure (item :: items, ⟨rest'', by omega⟩)
    | _ => none
termination_by (text.length, 1)
decreasing_by
  · simp only [Prod.lex_def]; omega
  · exact Prod.Lex.left _ _ hr

/-- Reads the fields of an object and its closing brace. -/
def fieldsFrom (text : List Char) : Taken (List (List Char × Json)) text :=
  have hs := length_skip_le text
  match hq : skip text with
  | '"' :: named =>
    match hb : body? named with
    | none => none
    | some (name, afterName) =>
      match hc : skip afterName with
      | ':' :: afterColon =>
        if hv : (skip afterColon).length < text.length then
          match value (skip afterColon) with
          | none => none
          | some (item, ⟨rest, h⟩) =>
            match h' : skip rest with
            | '}' :: rest' =>
              some ([(name, item)], ⟨rest', by
                have := length_skip_le rest
                simp [h'] at this; omega⟩)
            | ',' :: rest' =>
              have hr : rest'.length < text.length := by
                have := length_skip_le rest
                simp [h'] at this; omega
              do
                let (fields, ⟨rest'', h''⟩) ← fieldsFrom rest'
                pure ((name, item) :: fields, ⟨rest'', by omega⟩)
            | _ => none
        else none
      | _ => none
  | _ => none
termination_by (text.length, 1)
decreasing_by
  · exact Prod.Lex.left _ _ hv
  · exact Prod.Lex.left _ _ hr

end

/-- The value of a JSON text. -/
def parse? (text : List Char) : Option Json := do
  let (value, ⟨rest, _⟩) ← value (skip text)
  if skip rest = [] then pure value else none

end ModelCar.Json
