import ModelCar.Json.Basic

/-!
# Printing JSON

The text of a value without any blanks, and with the fields of an object in their
order.
-/

namespace ModelCar.Json

mutual
/-- The characters of a value. -/
def toList : Json → List Char
  | null => "null".toList
  | bool true => "true".toList
  | bool false => "false".toList
  | numeral n => n.toList
  | quoted body => '"' :: body ++ ['"']
  | array items => '[' :: itemsToList items ++ [']']
  | object fields => '{' :: fieldsToList fields ++ ['}']

def itemsToList : List Json → List Char
  | [] => []
  | [value] => value.toList
  | value :: rest => value.toList ++ ',' :: itemsToList rest

def fieldsToList : List (List Char × Json) → List Char
  | [] => []
  | [(name, value)] => '"' :: name ++ '"' :: ':' :: value.toList
  | (name, value) :: rest =>
    '"' :: name ++ '"' :: ':' :: value.toList ++ ',' :: fieldsToList rest
end

/-- The text of a value. -/
def print (value : Json) : String :=
  String.ofList value.toList

end ModelCar.Json
