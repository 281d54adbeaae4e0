import ModelCar.Json.Basic

/-!
# Reading records from JSON

A record with named fields is read from an object, whatever the order of its fields,
or from an array that holds the fields in order.  In an object a known name occurs
once at most, and unknown names are passed over.  `slots` finds the value of each
field; how a missing one is treated is up to the record.
-/

namespace ModelCar.Json

/-- The values of the fields with a given name. -/
def named (name : String) (fields : List (String × Json)) : List Json :=
  (fields.filter fun field => field.1 = name).map (·.2)

/-- The fields of an object with their names read. -/
def namedFields? (fields : List (List Char × Json)) : Option (List (String × Json)) :=
  fields.mapM fun (name, value) => do
    pure (String.ofList (← unescape? name), value)

/-- The value of each field of a record, as far as it is there. -/
def slots (names : List String) : Json → Option (List (Option Json))
  | object fields => do
    let fields ← namedFields? fields
    names.mapM fun name =>
      match named name fields with
      | [] => some none
      | [value] => some (some value)
      | _ => none
  | array items =>
    if items.length ≤ names.length then
      some (items.map some ++ List.replicate (names.length - items.length) none)
    else none
  | _ => none

/-- The value of each field of a record, where an array has to hold all of them. -/
def fullSlots (names : List String) : Json → Option (List (Option Json))
  | array items => if items.length = names.length then some (items.map some) else none
  | value => value.slots names

/-- A field that has to be there. -/
def required {α : Type} (read : Json → Option α) : Option Json → Option α
  | some value => read value
  | none => none

/-- A field that has a default. -/
def defaulted {α : Type} (fallback : α) (read : Json → Option α) : Option Json → Option α
  | some value => read value
  | none => some fallback

/-- A field that may be null or missing. -/
def optional {α : Type} (read : Json → Option α) : Option Json → Option (Option α)
  | some null => some none
  | some value => some <$> read value
  | none => some none

/-- A list of values, each read alike. -/
def list? {α : Type} (read : Json → Option α) : Json → Option (List α)
  | array items => items.mapM read
  | _ => none

end ModelCar.Json
