import ModelCar.Text.Blank
import ModelCar.Text.Utf8

/-!
# Settings of the build

The build of the firmware takes a few settings from an environment file: lines of the
form `KEY=VALUE`, where blanks around both parts do not count, a value may stand in
quotation marks, and a line may begin with `export`.  Blank lines, lines that begin
with `#`, lines without `=` and unknown keys are passed over.
-/

namespace ModelCar.Build

/-- The name of the environment file. -/
def fileName : String := ".env"

/-- The settings that the build knows. -/
def knownKeys : List String :=
  ["WIFI_AP_SSID", "WIFI_AP_PASS", "RC_UART_LINK"]

/-- The lines of a text. -/
def lines : List Char → List (List Char)
  | [] => [[]]
  | '\n' :: rest => [] :: lines rest
  | c :: rest =>
    match lines rest with
    | first :: others => (c :: first) :: others
    | [] => [[c]]

/-- A line without a leading `export`. -/
def withoutExport (line : List Char) : List Char :=
  let word := "export ".toList
  if word.isPrefixOf line then line.drop word.length else line

/-- A value without the quotation marks around it. -/
def unquoted (value : List Char) : List Char :=
  if 2 ≤ value.length ∧ value.head? = some '"' ∧ value.getLast? = some '"' then
    (value.drop 1).dropLast
  else value

/-- The key and the value of a line. -/
def setting? (line : List Char) : Option (List Char × List Char) :=
  let line := trimBlanks line
  if line.isEmpty ∨ line.head? = some '#' then none
  else
    let line := withoutExport line
    match line.dropWhile (· ≠ '=') with
    | [] => none
    | _ :: value =>
      some (trimBlanks (line.takeWhile (· ≠ '=')), unquoted (trimBlanks value))

/-- The settings in the text of an environment file, in their order. -/
def settings (text : List Char) : List (String × String) :=
  ((lines text).filterMap setting?).filterMap fun (key, value) =>
    let key := String.ofList key
    if key ∈ knownKeys then some (key, String.ofList value) else none

/-- The line that makes the build depend on the environment file. -/
def watchLine : String :=
  "cargo:rerun-if-changed=" ++ fileName

/-- The line that hands a setting to the build. -/
def settingLine (key value : String) : String :=
  "cargo:rustc-env=" ++ key ++ "=" ++ value

/-- What the build is told, given the bytes of the environment file if there is one.
A file that is no text counts as none. -/
def instructions (file : Option (List UInt8)) : List String :=
  let settings := ((file.bind Utf8.decode?).map settings).getD []
  watchLine :: settings.map fun (key, value) => settingLine key value

end ModelCar.Build
