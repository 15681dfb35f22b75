/-!
# Options and commands

The options and the commands of the command line, and what arguments can ask for.
-/

namespace Flowgraph.Console

/-- What the options of the command line say. -/
structure Flags where
  format : Option String := none
  noTypescript : Bool := false
  jsx : Bool := false
  functions : Option (List String) := none
  output : Option String := none
  noColor : Bool := false
  debug : Bool := false
  deriving DecidableEq, Repr, Inhabited

/-- An option of the command line. -/
inductive Flag where
  | version
  | format
  | noTypescript
  | jsx
  | function
  | output
  | noColor
  | debug
  deriving DecidableEq, Repr, Inhabited

namespace Flag

/-- All options but the one for help. -/
def all : List Flag :=
  [.version, .format, .noTypescript, .jsx, .function, .output, .noColor, .debug]

/-- The long name of an option. -/
def long : Flag → String
  | .version => "--version"
  | .format => "--format"
  | .noTypescript => "--no-typescript"
  | .jsx => "--jsx"
  | .function => "--function"
  | .output => "--output"
  | .noColor => "--no-color"
  | .debug => "--debug"

/-- The short name of an option, if it has one. -/
def short? : Flag → Option String
  | .version => some "-V"
  | .format => some "-f"
  | .output => some "-o"
  | _ => none

/-- The option and its value, as messages give them, for an option that takes a value. -/
def form? : Flag → Option String
  | .format => some "-f, --format <format>"
  | .function => some "--function <names...>"
  | .output => some "-o, --output <file>"
  | _ => none

/-- The option takes a value. -/
def takesValue (flag : Flag) : Bool := flag.form?.isSome

/-- The option with a short or long name. -/
def named? (name : String) : Option Flag :=
  all.find? fun flag => flag.long == name || flag.short? == some name

/-- Take over an option that takes no value. -/
def set (flag : Flag) (flags : Flags) : Flags :=
  match flag with
  | .noTypescript => { flags with noTypescript := true }
  | .jsx => { flags with jsx := true }
  | .noColor => { flags with noColor := true }
  | .debug => { flags with debug := true }
  | _ => flags

/-- Take over an option with its value.  The last format and output win, the names of functions
add up. -/
def setValue (flag : Flag) (value : String) (flags : Flags) : Flags :=
  match flag with
  | .format => { flags with format := some value }
  | .function => { flags with functions := some (flags.functions.getD [] ++ [value]) }
  | .output => { flags with output := some value }
  | _ => flags

end Flag

/-- The commands that have a name. -/
inductive Command where
  | watch
  | init
  deriving DecidableEq, Repr, Inhabited

namespace Command

def name : Command → String
  | .watch => "watch"
  | .init => "init"

/-- The command with a name. -/
def named? : String → Option Command
  | "watch" => some .watch
  | "init" => some .init
  | _ => none

/-- The options that a command is shown with. -/
def flags : Option Command → List Flag
  | none => Flag.all
  | some .watch => [.format, .noTypescript, .jsx, .function, .debug]
  | some .init => []

end Command

/-- What arguments ask for, once they are read. -/
inductive Invocation where
  /-- The reader has answered, as with the version or a help text; there is nothing left to do. -/
  | answered (text : String)
  /-- Generate the graphs of a file. -/
  | generate (file : String) (flags : Flags)
  /-- Generate the graphs of a file whenever it changes.  The main command has taken `flags`, and
  `own` is what is left for the command `watch`. -/
  | watch (file : String) (flags own : Flags)
  /-- Write a file with the default settings. -/
  | init (flags : Flags)
  /-- The arguments are wrong. -/
  | wrong (message : String)
  deriving DecidableEq, Repr, Inhabited

end Flowgraph.Console
