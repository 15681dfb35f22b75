import Flowgraph.Render.Dot
import Flowgraph.Render.Record
import Flowgraph.Render.Stanza

/-!
# Output formats
-/

namespace Flowgraph

/-- How a program is written. -/
inductive OutputFormat where
  | text
  | dot
  | json
  deriving DecidableEq, Repr, Inhabited

namespace OutputFormat

/-- The name under which a format is chosen. -/
def name : OutputFormat → String
  | .text => "text"
  | .dot => "dot"
  | .json => "json"

/-- The format with the given name. -/
def ofName? : String → Option OutputFormat
  | "text" => some .text
  | "dot" => some .dot
  | "json" => some .json
  | _ => none

/-- The format that a JSON value names. -/
def ofJson? (j : Json) : Option OutputFormat := j.string? >>= ofName?

theorem ofName?_name (format : OutputFormat) : ofName? format.name = some format := by
  cases format <;> rfl

end OutputFormat

/-- Write a pruned program. -/
def Program.format (p : Program) : OutputFormat → Except Fault String
  | .text => Render.programText p
  | .dot => return (← Render.programDot p) ++ "\n"
  | .json => return (Render.programJson (← p.record)).pretty ++ "\n"

end Flowgraph
