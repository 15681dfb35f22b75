import Flowgraph.Json.Printer
import Flowgraph.Render.Format

/-!
# Settings

What a settings file can say, and what is wrong with a file that says something else.  A key
with a value that does not fit falls back to the default and is warned about.
-/

namespace Flowgraph

/-- The settings under which a program is generated and written. -/
structure Settings where
  format : OutputFormat := .text
  /-- Accept type annotations. -/
  typescript : Bool := true
  /-- Accept markup in expressions. -/
  jsx : Bool := false
  /-- The functions that are wanted; none stands for all. -/
  functions : List String := []
  deriving DecidableEq, Repr, Inhabited

/-- Settings some of which may be missing. -/
structure PartialSettings where
  format : Option OutputFormat := none
  typescript : Option Bool := none
  jsx : Option Bool := none
  functions : Option (List String) := none
  deriving DecidableEq, Repr, Inhabited

/-- Fill up what is missing. -/
def Settings.override (defaults : Settings) (given : PartialSettings) : Settings where
  format := given.format.getD defaults.format
  typescript := given.typescript.getD defaults.typescript
  jsx := given.jsx.getD defaults.jsx
  functions := given.functions.getD defaults.functions

/-- The settings that are true or false. -/
inductive SettingsFlag where
  | typescript
  | jsx
  deriving DecidableEq, Repr, Inhabited

def SettingsFlag.name : SettingsFlag → String
  | .typescript => "typescript"
  | .jsx => "jsx"

/-- What is wrong with a settings file. -/
inductive SettingsWarning where
  | notAnObject
  | badFormat (value : Json)
  | badFlag (flag : SettingsFlag) (value : Json)
  | badFunctions
  | unknownKey (key : String)
  /-- The file could not be loaded at all. -/
  | unloadable (path : String) (reason : String)
  deriving Inhabited

/-- The text of a warning. -/
def SettingsWarning.text : SettingsWarning → String
  | .notAnObject => "Config file must contain an object"
  | .badFormat value => "Invalid format " ++ value.compact ++ "; expected text, dot or json"
  | .badFlag flag value =>
    "Invalid " ++ flag.name ++ " " ++ value.compact ++ "; expected true or false"
  | .badFunctions => "Invalid functions; expected a list of function names"
  | .unknownKey key => "Unknown config key \"" ++ key ++ "\""
  | .unloadable path reason => "Could not load config from " ++ path ++ ": " ++ reason

namespace PartialSettings

/-- Take over a flag. -/
def setFlag (s : PartialSettings) (flag : SettingsFlag) (value : Bool) : PartialSettings :=
  match flag with
  | .typescript => { s with typescript := some value }
  | .jsx => { s with jsx := some value }

/-- Take over one key of a settings file, or say what is wrong with it. -/
def accept (s : PartialSettings) (key : String) (value : Json) :
    Except SettingsWarning PartialSettings :=
  let flag := fun (flag : SettingsFlag) =>
    match value.bool? with
    | some b => .ok (s.setFlag flag b)
    | none => .error (.badFlag flag value)
  match key with
  | "format" =>
    match OutputFormat.ofJson? value with
    | some format => .ok { s with format := some format }
    | none => .error (.badFormat value)
  | "typescript" => flag .typescript
  | "jsx" => flag .jsx
  | "functions" =>
    match value.array? >>= fun items => items.mapM Json.string? with
    | some names => .ok { s with functions := some names }
    | none => .error .badFunctions
  | key => .error (.unknownKey key)

/-- Take over the keys of a settings file one after the other. -/
def acceptAll (s : PartialSettings) :
    List (String × Json) → PartialSettings × List SettingsWarning
  | [] => (s, [])
  | (key, value) :: rest =>
    match s.accept key value with
    | .ok s => acceptAll s rest
    | .error warning =>
      let (s, warnings) := acceptAll s rest
      (s, warning :: warnings)

/-- The settings that a JSON value gives, and a warning for every key that does not fit. -/
def ofJson (j : Json) : PartialSettings × List SettingsWarning :=
  match j with
  | .object fields => acceptAll {} fields
  | _ => ({}, [.notAnObject])

end PartialSettings

/-- Settings as a JSON value. -/
def Settings.json (s : Settings) : Json :=
  .object [
    ("format", .string s.format.name),
    ("typescript", .bool s.typescript),
    ("jsx", .bool s.jsx),
    ("functions", .ofStrings s.functions)]

end Flowgraph
