import Flowgraph.Files
import Flowgraph.Json.Reader
import Flowgraph.Settings

/-!
# Loading settings

The settings of a directory come from the nearest settings file: the first one, by rank, in
the directory itself, else in the one above, and so on up to the root.
-/

namespace Flowgraph

/-- The names under which settings files are looked for. -/
inductive SettingsFile where
  | config
  | rc
  | rcJson
  /-- A script whose value holds the settings. -/
  | script
  deriving DecidableEq, Repr, Inhabited

namespace SettingsFile

/-- All names, by rank. -/
def all : List SettingsFile := [.config, .rc, .rcJson, .script]

def name : SettingsFile → String
  | .config => "cfgprune.config.json"
  | .rc => ".cfgprunerc"
  | .rcJson => ".cfgprunerc.json"
  | .script => "cfgprune.config.js"

/-- The settings file nearest to a directory. -/
def find? (fs : FileSystem) (directory : Path) : Option (Path × SettingsFile) :=
  let candidates := directory.ancestors.flatMap fun above =>
    all.map fun file => (above ++ [file.name], file)
  candidates.find? fun candidate => fs.has candidate.1

/-- The value that a script offers: its default part if it has one. -/
def offered (value : Json) : Json :=
  match value with
  | .object fields => (fields.lookup "default").getD value
  | _ => value

/-- The JSON value in a settings file, or the reason why there is none. -/
def load (fs : FileSystem) (path : Path) (file : SettingsFile) : Except String Json :=
  match file, fs.entry? path with
  | .script, some (.script _ (.value value)) => .ok (offered value)
  | .script, some (.script _ (.raised message)) => .error message
  | .script, some (.script _ (.raisedValue value)) => .error value.plainText
  | .script, _ => .error "the script cannot be run"
  | _, _ => do
    let text ← (fs.read path).mapError FileError.message
    match Json.parse? text with
    | some value => return value
    | none => throw "the text is not JSON"

end SettingsFile

/-- Settings and where they came from. -/
structure LoadedSettings where
  settings : Settings
  path : Option Path
  warnings : List SettingsWarning
  deriving Inhabited

/-- Load the settings of a directory. -/
def LoadedSettings.ofDirectory (fs : FileSystem) (directory : Path) : LoadedSettings :=
  match SettingsFile.find? fs directory with
  | none => { settings := {}, path := none, warnings := [] }
  | some (path, file) =>
    match SettingsFile.load fs path file with
    | .error reason =>
      { settings := {}, path := some path, warnings := [.unloadable path.text reason] }
    | .ok value =>
      let (given, warnings) := PartialSettings.ofJson value
      { settings := Settings.override {} given, path := some path, warnings }

end Flowgraph
