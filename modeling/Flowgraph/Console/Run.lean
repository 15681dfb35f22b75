import Flowgraph.Console.Shell
import Flowgraph.Render.Stats
import Flowgraph.Settings.Load

/-!
# Commands

What the commands do.  A file is generated in two steps: first its settings are settled from
the nearest settings file and the options; then it is read, built, pruned and written.  If
either step fails, nothing is written to the standard output.
-/

namespace Flowgraph.Console

/-- Why a file was not generated. -/
inductive RunError where
  | file (error : FileError)
  | generate (failure : Failure)
  deriving DecidableEq, Repr, Inhabited

namespace RunError

def message : RunError → String
  | .file error => error.message
  | .generate failure => failure.message

/-- The place in the source that the error points at. -/
def location? : RunError → Option Location
  | .generate (.source error) => error.location?
  | _ => none

end RunError

/-- The settings that the options ask for in place of those of a settings file. -/
def Flags.settings? (flags : Flags) (loaded : Settings) : Except String Settings := do
  let format ←
    match flags.format with
    | none => pure loaded.format
    | some name =>
      match OutputFormat.ofName? name with
      | some format => pure format
      | none => throw name
  return {
    format
    typescript := loaded.typescript && !flags.noTypescript
    jsx := loaded.jsx || flags.jsx
    functions := flags.functions.getD loaded.functions }

/-- Settle the settings for a file; `none` if an option is wrong. -/
def settle (host : Host) (path : Path) (flags : Flags) : Shell (Option Settings) := do
  let loaded := LoadedSettings.ofDirectory (← get).files path.parent
  loaded.warnings.forM fun warning => Shell.say host .yellow ("Warning: " ++ warning.text ++ "\n")
  if let some path := loaded.path then
    if flags.debug then Shell.say host .grey ("Using config: " ++ path.text ++ "\n")
  match flags.settings? loaded.settings with
  | .ok settings => return some settings
  | .error name =>
    Shell.say host .red ("Error: Unknown format \"" ++ name ++ "\" (expected text, dot or json)\n")
    return none

/-- How a source file at a path is read under some settings. -/
def readOptions (settings : Settings) (path : Path) : GenerateOptions where
  typescript := settings.typescript
  jsx := settings.jsx
  sourceFilename := some path.text
  functions := settings.functions

/-- Report an error, and show its place in the source if it has one and the file is there. -/
def reportError (host : Host) (path : Path) (file : String) (error : RunError) : Shell Unit := do
  match error.location? with
  | none => Shell.say host .red ("Error: " ++ error.message ++ "\n")
  | some place =>
    Shell.say host .red
      ("Error: " ++ error.message ++ s!" ({file}:{place.line}:{place.column})\n")
    if 0 < place.line then
      if let .ok text := (← get).files.read path then
        let shown := host.frame text place
        unless shown.isEmpty do Shell.err (shown ++ "\n")

/-- The line that tells what pruning did to a function. -/
def reportLine (r : FunctionReport) : String :=
  r.name ++ s!": {r.report.created} blocks created, {r.report.unreachable} unreachable, "
    ++ s!"{r.report.elided} elided, {r.report.merged} merged, {r.report.surviving} surviving\n"

/-- Tell what pruning did, and what is left. -/
def debugInfo (host : Host) (g : Generation) : Shell Unit := do
  g.reports.forM fun r => Shell.say host .grey (reportLine r)
  g.program.functions.forM fun graph =>
    match Render.statsText graph with
    | .ok text => Shell.say host .grey (text ++ "\n")
    | .error _ => return

/-- Read a file, and build and prune the graphs of its functions. -/
def generate (host : Host) (path : Path) (file : String) (settings : Settings) :
    Shell (Except RunError Generation) := do
  match (← get).files.read path with
  | .error error => return .error (.file error)
  | .ok source =>
    let options := readOptions settings path
    Shell.emit (.parse (Text.units source) options.request)
    return (Generation.ofText host.parser file source options).mapError .generate

/-- Generate a file and write it out; `none` after an error was reported. -/
def render (host : Host) (file : String) (settings : Settings) (debug : Bool) :
    Shell (Option String) := do
  let path := Path.resolve host.directory file
  match ← generate host path file settings with
  | .error error =>
    reportError host path file error
    return none
  | .ok generation =>
    if debug then debugInfo host generation
    match generation.program.format settings.format with
    | .ok text => return some text
    | .error fault =>
      reportError host path file (.generate (.graph fault))
      return none

/-- Find a file and settle its settings; `none` after the reason why not was reported. -/
def prepare (host : Host) (file : String) (flags : Flags) : Shell (Option Settings) := do
  let path := Path.resolve host.directory file
  if (← get).files.has path then settle host path flags
  else
    Shell.say host .red ("Error: File \"" ++ file ++ "\" does not exist\n")
    return none

/-- Generate a file once. -/
def runOnce (host : Host) (file : String) (flags : Flags) : Shell Unit := do
  match ← prepare host file flags with
  | none => Shell.setExitCode 1
  | some settings =>
    match ← render host file settings flags.debug with
    | none => Shell.setExitCode 1
    | some text =>
      match flags.output.filter (· != "") with
      | none => Shell.out text
      | some output =>
        Shell.write (Path.resolve host.directory output) text
        Shell.say host .green ("Wrote " ++ output ++ "\n")

/-- Write a file with the default settings, unless there is one. -/
def runInit (host : Host) : Shell Unit := do
  let path := host.directory ++ [SettingsFile.config.name]
  if (← get).files.has path then
    Shell.say host .yellow ("Config file already exists: " ++ path.text ++ "\n")
    Shell.say host .grey "Delete it first if you want to regenerate.\n"
    Shell.setExitCode 1
  else
    Shell.write path ((Settings.json {}).pretty ++ "\n")
    Shell.say host .green ("Created " ++ path.text ++ "\n")
    Shell.say host .grey "\nConfiguration options:\n"
    Shell.say host .grey "  format: Output format (text, dot, json)\n"
    Shell.say host .grey "  typescript: Accept TypeScript syntax\n"
    Shell.say host .grey "  jsx: Accept JSX syntax\n"
    Shell.say host .grey "  functions: Only output these functions (empty for all)\n"

/-! ## Watching -/

/-- How long changes are gathered, in milliseconds. -/
def gatherTime : Nat := 300

/-- A file that is being watched. -/
structure Watcher where
  file : String
  settings : Settings
  /-- Tell at every rebuild what pruning did. -/
  debug : Bool := false
  /-- The timer that was started last, if there is one, and whether it still runs. -/
  timer : Option Bool := none
  deriving DecidableEq, Repr, Inhabited

/-- What a watcher reacts to. -/
inductive WatchEvent where
  /-- The file changed. -/
  | changed
  /-- The time of a running timer is over. -/
  | timeout
  /-- The user wants to stop.  The watcher closes well, or with an error message. -/
  | interrupt (closeError : Option String)
  deriving DecidableEq, Repr, Inhabited

/-- Generate the watched file and write it to the standard output. -/
def rebuild (host : Host) (w : Watcher) : Shell Unit := do
  Shell.say host .grey ("\n[" ++ host.time ++ "] Building...\n")
  if let some text ← render host w.file w.settings w.debug then Shell.out text

/-- Begin to watch a file.  Here only the options count that are left for this command. -/
def startWatch (host : Host) (file : String) (own : Flags) : Shell (Option Watcher) := do
  match ← prepare host file own with
  | none =>
    Shell.setExitCode 1
    return none
  | some settings =>
    Shell.say host .blue ("Watching " ++ file ++ "\n")
    Shell.say host .grey "Press Ctrl+C to stop\n"
    let w : Watcher := { file, settings, debug := own.debug }
    rebuild host w
    Shell.emit (.watch (Path.resolve host.directory file))
    return some w

/-- React to an event. -/
def Watcher.react (host : Host) (w : Watcher) : WatchEvent → Shell Watcher
  | .changed => do
    if let some running := w.timer then Shell.emit (.stopTimer running)
    Shell.emit (.startTimer gatherTime)
    return { w with timer := some true }
  | .timeout => do
    if w.timer = some true then
      rebuild host w
      return { w with timer := some false }
    return w
  | .interrupt closeError => do
    Shell.say host .blue "\nStopping watch mode...\n"
    if let some running := w.timer then Shell.emit (.stopTimer running)
    Shell.emit .close
    match closeError with
    | none => Shell.emit (.exit 0)
    | some message =>
      Shell.say host .red ("Error: " ++ message ++ "\n")
      Shell.emit (.exit 1)
    return { w with timer := w.timer.map fun _ => false }

/-! ## The command line -/

/-- The colour option takes effect before anything is done. -/
def applyColour (flags : Flags) : Shell Unit :=
  if flags.noColor then modify fun w => { w with coloured := false } else return

/-- Do what the arguments ask for.  Answers the exit code and what is being watched. -/
def run (host : Host) (args : List String) : Shell (Nat × Option Watcher) := do
  match host.arguments args with
  | .answered text => do
    Shell.out text
    return (0, none)
  | .wrong message => do
    Shell.err (message ++ "\n")
    return (1, none)
  | .generate file flags => do
    applyColour flags
    runOnce host file flags
    return (exitCodeOf (← get).effects, none)
  | .init flags => do
    applyColour flags
    runInit host
    return (exitCodeOf (← get).effects, none)
  | .watch file flags own => do
    applyColour flags
    let watcher ← startWatch host file own
    return (exitCodeOf (← get).effects, watcher)

end Flowgraph.Console
