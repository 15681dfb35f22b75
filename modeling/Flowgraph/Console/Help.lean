import Flowgraph.Console.Options

/-!
# Help
-/

namespace Flowgraph.Console

/-- The version of the program. -/
def versionText : String := "1.0.0\n"

/-- The lines that are shown for help with a command. -/
def helpLines : Option Command → List String
  | none => [
    "Usage: cfg-prune [options] [command] <file>",
    "",
    "Build, prune and print the control-flow graph of every function in a file",
    "",
    "Arguments:",
    "  file                    Source file to build CFGs for",
    "",
    "Options:",
    "  -V, --version           output the version number",
    "  -f, --format <format>   Output format (text, dot, json)",
    "  --no-typescript         Reject TypeScript syntax",
    "  --jsx                   Accept JSX syntax",
    "  --function <names...>   Only output these functions",
    "  -o, --output <file>     Write the output to a file instead of stdout",
    "  --no-color              Disable colored output",
    "  --debug                 Print pruning statistics for every function",
    "  -h, --help              display help for command",
    "",
    "Commands:",
    "  watch [options] <file>  Print the CFGs again whenever the file changes",
    "  init                    Generate a default cfgprune.config.json configuration",
    "                          file"]
  | some .watch => [
    "Usage: cfg-prune watch [options] <file>",
    "",
    "Print the CFGs again whenever the file changes",
    "",
    "Options:",
    "  -f, --format <format>  Output format (text, dot, json)",
    "  --no-typescript        Reject TypeScript syntax",
    "  --jsx                  Accept JSX syntax",
    "  --function <names...>  Only output these functions",
    "  --debug                Print pruning statistics on every rebuild",
    "  -h, --help             display help for command"]
  | some .init => [
    "Usage: cfg-prune init [options]",
    "",
    "Generate a default cfgprune.config.json configuration file",
    "",
    "Options:",
    "  -h, --help  display help for command"]

/-- The text that is shown for help with a command. -/
def helpText (command : Option Command) : String :=
  String.join ((helpLines command).map (· ++ "\n"))

end Flowgraph.Console
