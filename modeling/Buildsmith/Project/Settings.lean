import Buildsmith.Data.Value

/-!
# Settings of projects

Settings are kept in a file, one a line, as a name and a value with an equals sign between them.
Truth values are written `y` and `n`, numbers in decimal, and texts in double quotes.  Lines that
are empty or start with a hash sign are skipped.
-/

namespace Buildsmith.Project

open Data Text

/-- The value that a text in a file of settings stands for; what is neither quoted nor a truth value
nor a number is a text. -/
def settingValue (s : String) : Value :=
  if startsWith s "\"" && endsWith s "\"" then .text (slice s 1 (-1))
  else if s = "y" then .flag true
  else if s = "n" then .flag false
  else
    match Text.Integer.parse? (if startsWith s "0x" then 16 else 10) s with
    | some n => .number n
    | none => .text s

def overlong : Fault :=
  .rejected ("Exceeds the limit (4300 digits) for integer string conversion; " ++
    "use sys.set_int_max_str_digits() to increase the limit")

def settingText : Value → Except Fault String
  | .flag b => .ok (if b then "y" else "n")
  | .number n => (Text.Integer.text? n).elim (.error overlong) .ok
  | .text s => .ok ("\"" ++ s ++ "\"")
  | v => .ok v.literal

def readSettingLines : Fields → List String → Except Fault Fields
  | settings, [] => .ok settings
  | settings, line :: rest =>
    let line := trim line
    if line.isEmpty || startsWith line "#" then readSettingLines settings rest
    else
      match splitOn line "=" with
      | [name, value] => readSettingLines (Fields.put name (settingValue value) settings) rest
      | parts =>
        .error (if parts.length < 2 then .tooFew 2 parts.length else .tooMany 2)

def readSettings (text : String) : Except Fault Fields :=
  readSettingLines [] (splitOn text "\n")

/-- The text for settings; it ends where one of them cannot be written. -/
def writeSettings : Fields → String × Option Fault
  | [] => ("", none)
  | (name, value) :: rest =>
    match settingText value with
    | .error f => ("", some f)
    | .ok s =>
      let (text, fault) := writeSettings rest
      (name ++ "=" ++ s ++ "\n" ++ text, fault)

end Buildsmith.Project
