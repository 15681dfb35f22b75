import Flowgraph.Console.Run
import Flowgraph.Source.Reader

/-!
# The program

Runs the command line on the files of the machine.  The files that a command can ask for are
looked at beforehand; what the command did is then carried out in order.
-/

namespace Flowgraph.Console

/-- The files that a command reads or writes, the settings files apart. -/
def Invocation.files (directory : Path) : Invocation → List Path
  | .generate file flags =>
    Path.resolve directory file :: flags.output.toList.map (Path.resolve directory)
  | .watch file _ _ => [Path.resolve directory file]
  | .init _ => [directory ++ [SettingsFile.config.name]]
  | _ => []

/-- All places where a command may look for something. -/
def Invocation.places (directory : Path) (invocation : Invocation) : List Path :=
  let files := invocation.files directory
  let above := files.flatMap fun file => file.parent.ancestors
  let settings := above.flatMap fun place => SettingsFile.all.map fun file => place ++ [file.name]
  (files ++ above ++ settings).eraseDups

/-- What the machine has at a path. -/
def lookAt (path : Path) : IO (Option Entry) := do
  let place := (← IO.currentDir) / path.text
  if ← place.isDir then return some .directory
  if ← place.pathExists then return some (.file (← IO.FS.readFile place))
  return none

/-- What the machine has at some paths. -/
def snapshot (paths : List Path) : IO FileSystem := do
  let entries ← paths.filterMapM fun path => return (← lookAt path).map (path, ·)
  return { entries }

/-- Carry out what a command did. -/
def perform (effects : List Effect) : IO Unit := do
  for effect in effects do
    match effect with
    | .out text => (← IO.getStdout).putStr text
    | .err text => (← IO.getStderr).putStr text
    | _ => pure ()

/-- Write the files that a command changed. -/
def store (before after : FileSystem) : IO Unit := do
  for (path, text) in before.changes after do
    IO.FS.writeFile ((← IO.currentDir) / path.text) text

/-- Run a part of a command on some files, and carry out what it does. -/
def execute {α : Type} (files : FileSystem) (coloured : Bool) (part : Shell α) :
    IO (Option (α × World)) := do
  let (result, world) := match part { files, coloured } with
    | .ok a world => (Except.ok a, world)
    | .error error world => (.error error, world)
  perform world.effects
  store files world.files
  match result with
  | .ok a => return some (a, world)
  | .error error =>
    (← IO.getStderr).putStr ("Error: " ++ error.message ++ "\n")
    return none

/-- The command line on this machine, at this time. -/
def currentHost : IO Host := do
  let now ← IO.monoMsNow
  return {
    directory := Path.resolve [] (← IO.currentDir).toString
    parser := Source.parse
    time := s!"{now / 1000} s" }

/-- Look at a watched file again and again, and react when it is not what it was. -/
partial def keepWatching (w : Watcher) (places : List Path) (coloured : Bool)
    (last : FileSystem) : IO Unit := do
  IO.sleep gatherTime.toUInt32
  let files ← snapshot places
  let host ← currentHost
  let changed := !(last.changes files).isEmpty || last.entries.length != files.entries.length
  let react := do
    let w ← if changed then w.react host .changed else pure w
    w.react host .timeout
  match ← execute files coloured react with
  | some (w, _) => keepWatching w places coloured files
  | none => return

end Flowgraph.Console

open Flowgraph.Console in
/-- Do what the arguments ask for. -/
def main (args : List String) : IO UInt32 := do
  let host ← currentHost
  let places := (host.arguments args).places host.directory
  let files ← snapshot places
  match ← execute files (← (← IO.getStderr).isTty) (run host args) with
  | none => return 1
  | some ((code, watcher), world) =>
    if let some w := watcher then keepWatching w places world.coloured files
    return code.toUInt32
