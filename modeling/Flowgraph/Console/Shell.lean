import Flowgraph.Console.Arguments
import Flowgraph.Console.Frame
import Flowgraph.Console.Style
import Flowgraph.Files
import Flowgraph.Generate

/-!
# The world of a command

A command sees files, writes to two streams and sets an exit code.  All it does is kept in
order as a list of effects; the files are changed as it goes.  It ends early when a file
cannot be written.
-/

namespace Flowgraph.Console

/-- Something a command did. -/
inductive Effect where
  /-- Wrote to the standard output. -/
  | out (text : String)
  /-- Wrote to the standard error stream. -/
  | err (text : String)
  /-- Asked for an exit code. -/
  | exitCode (code : Nat)
  /-- Asked a parser to read a text of so many code units. -/
  | parse (length : Nat) (request : ParseRequest)
  /-- Began to watch a file. -/
  | watch (path : Path)
  /-- Started a timer that ends after so many milliseconds. -/
  | startTimer (delay : Nat)
  /-- Stopped a timer, which was still running or not. -/
  | stopTimer (running : Bool)
  /-- Stopped watching. -/
  | close
  /-- Ended the program. -/
  | exit (code : Nat)
  deriving DecidableEq, Repr, Inhabited

/-- What does not change while a command runs.  What reads arguments, colours messages and shows places
is that of this library unless another is given. -/
structure Host where
  /-- The current directory. -/
  directory : Path
  parser : Parser
  /-- The time of day, as messages show it. -/
  time : String
  /-- Reads the arguments of the command line. -/
  arguments : List String → Invocation := Invocation.ofArguments
  /-- Colours a message. -/
  paint : Colour → String → String := Colour.paint
  /-- Shows a place in a text. -/
  frame : String → Location → String := Console.frame

/-- What a command finds and leaves behind. -/
structure World where
  files : FileSystem
  /-- Messages are coloured. -/
  coloured : Bool := false
  /-- What was done so far, the first thing first. -/
  effects : List Effect := []
  deriving Inhabited

/-- A part of a command. -/
abbrev Shell := EStateM FileError World

namespace Shell

/-- Note that something was done. -/
def emit (effect : Effect) : Shell Unit :=
  modify fun w => { w with effects := w.effects ++ [effect] }

/-- Write to the standard output. -/
def out (text : String) : Shell Unit := emit (.out text)

/-- Write to the standard error stream. -/
def err (text : String) : Shell Unit := emit (.err text)

/-- Write to the standard error stream in colour. -/
def say (host : Host) (colour : Colour) (text : String) : Shell Unit := do
  err (if (← get).coloured then host.paint colour text else text)

/-- Ask for an exit code. -/
def setExitCode (code : Nat) : Shell Unit := emit (.exitCode code)

/-- Write a file. -/
def write (path : Path) (text : String) : Shell Unit := do
  match (← get).files.write path text with
  | .ok files => modify fun w => { w with files }
  | .error error => throw error

end Shell

/-- The exit code that the effects leave: the one asked for last. -/
def exitCodeOf (effects : List Effect) : Nat :=
  effects.foldl (fun code effect =>
    match effect with
    | .exitCode code => code
    | _ => code) 0

end Flowgraph.Console
