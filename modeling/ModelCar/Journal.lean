/-!
# The journal

What the program reports to its operator: lines with a level.
-/

namespace ModelCar

/-- How much a line of the journal matters. -/
inductive Level where
  | info
  | warn
  | error
deriving DecidableEq, Repr, Inhabited

/-- The name of a level. -/
def Level.name : Level → String
  | info => "INFO"
  | warn => "WARN"
  | error => "ERROR"

/-- A line of the journal. -/
structure Entry where
  level : Level
  text : String
deriving DecidableEq, Repr, Inhabited

namespace Entry

/-- A line on the normal course of things. -/
def info (text : String) : Entry := ⟨.info, text⟩

/-- A line on something that went wrong and is handled. -/
def warn (text : String) : Entry := ⟨.warn, text⟩

/-- A line on something that stops working. -/
def error (text : String) : Entry := ⟨.error, text⟩

/-- A line as it is written. -/
def line (e : Entry) : String :=
  e.level.name ++ ": " ++ e.text

end Entry

end ModelCar
