import Flowgraph.Console.Help
import Flowgraph.Console.Suggestion

/-!
# Command line arguments

Reads the arguments of the command line.  Options may stand before, between and behind
operands.  Behind the first unknown option the operands no longer count, but the known
options still do; two dashes end the options.

The main command takes every option that it declares, also behind the name of another command.
-/

namespace Flowgraph.Console

/-- What is left of the arguments when the known options are taken out. -/
structure Split where
  flags : Flags := {}
  operands : List String := []
  /-- The first unknown option and what follows it. -/
  unknown : List String := []
  deriving DecidableEq, Repr, Inhabited

/-- The argument looks like an option. -/
def isOption (arg : String) : Bool := arg.startsWith "-" && 1 < arg.length

/-- Put an argument that is no known option where it belongs. -/
def Split.place (s : Split) (arg : String) : Split :=
  if isOption arg || !s.unknown.isEmpty then { s with unknown := s.unknown ++ [arg] }
  else { s with operands := s.operands ++ [arg] }

/-- Put the arguments behind two dashes where they belong. -/
def Split.placeRest (s : Split) (rest : List String) : Split :=
  if s.unknown.isEmpty then { s with operands := s.operands ++ rest }
  else { s with unknown := s.unknown ++ "--" :: rest }

/-- An argument that holds an option and its value. -/
def joined? (arg : String) : Option (Flag × String) :=
  let cs := arg.toList
  let short := Flag.named? (String.ofList (cs.take 2))
  match cs, short with
  | '-' :: c :: _ :: _, some flag =>
    if c != '-' && flag.takesValue then some (flag, String.ofList (cs.drop 2)) else long cs
  | _, _ => long cs
where
  /-- A long option and its value, with an equals sign between them. -/
  long (cs : List Char) : Option (Flag × String) :=
    let name := cs.takeWhile (· != '=')
    match cs.dropWhile (· != '='), Flag.named? (String.ofList name) with
    | _ :: value, some flag =>
      if flag.takesValue && name.take 2 == ['-', '-'] then some (flag, String.ofList value)
      else none
    | _, _ => none

/-- Take the options out of the arguments.  `variadic` says that the option for functions is
taking values.  An option that is asked for at once, or that lacks its value, ends the
reading. -/
def split (s : Split) (variadic : Bool) : List String → Except Invocation Split
  | [] => return s
  | arg :: rest =>
    if arg == "--" then return s.placeRest rest
    else if variadic && !isOption arg then
      split { s with flags := Flag.function.setValue arg s.flags } true rest
    else
      match Flag.named? arg with
      | some .version => throw (.answered versionText)
      | some flag =>
        match flag.form? with
        | none => split { s with flags := flag.set s.flags } false rest
        | some form =>
          match rest with
          | value :: rest =>
            split { s with flags := flag.setValue value s.flags } (flag == .function) rest
          | [] => throw (.wrong ("error: option '" ++ form ++ "' argument missing"))
      | none =>
        if arg.toList.take 2 == ['-', 'V'] then throw (.answered versionText)
        else
          match joined? arg with
          | some (flag, value) => split { s with flags := flag.setValue value s.flags } false rest
          | none => split (s.place arg) false rest

/-- The option for help, which every command has. -/
def helpNames : List String := ["-h", "--help"]

/-- The message on an unknown option of a command. -/
def unknownOption (command : Option Command) (option : String) : String :=
  let known := (Command.flags command).map Flag.long ++ ["--help"]
    ++ (if command.isSome then Flag.all.map Flag.long else [])
  "error: unknown option '" ++ option ++ "'" ++ suggestion option known

/-- What the arguments ask for.  Only the first operand can name a command. -/
def Invocation.ofArguments (args : List String) : Invocation :=
  match split {} false args with
  | .error invocation => invocation
  | .ok s =>
    let command := s.operands.head? >>= Command.named?
    let operands := if command.isSome then s.operands.drop 1 else s.operands
    if s.unknown.any helpNames.contains then .answered (helpText command)
    else
      match s.unknown, command, operands with
      | option :: _, _, _ => .wrong (unknownOption command option)
      | [], some .init, _ => .init s.flags
      | [], _, [] => .wrong "error: missing required argument 'file'"
      -- the main command has taken all options, so none is left for this one
      | [], some .watch, file :: _ => .watch file s.flags {}
      | [], none, file :: _ => .generate file s.flags

end Flowgraph.Console
