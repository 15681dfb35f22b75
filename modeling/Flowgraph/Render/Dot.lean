import Flowgraph.Label
import Flowgraph.Text.Blank

/-!
# Graphviz

The DOT form of a pruned program, one cluster for every function.
-/

namespace Flowgraph.Render

/-- How a DOT graph is drawn. -/
structure DotOptions where
  /-- The title, unless it is the name of the source file. -/
  title : Option String := none
  /-- From left to right instead of from top to bottom. -/
  leftToRight : Bool := false
  /-- Show the text of the blocks. -/
  showLines : Bool := true
  deriving DecidableEq, Repr, Inhabited

/-- Write a text between the quotes of a label. -/
def escapeLabel (s : String) : String :=
  String.ofList (s.toList.flatMap fun c =>
    match c with
    | '\\' => ['\\', '\\']
    | '"' => ['\\', '"']
    | '\n' => ['\\', 'n']
    | c => [c])

/-- How the node of a block looks. -/
def nodeAttributes (b : Block) : List String :=
  match b.kind with
  | .entry => ["shape=ellipse", "fillcolor=\"#90EE90\"", "style=filled"]
  | .exit => ["shape=ellipse", "fillcolor=\"#FFB6C1\"", "style=filled"]
  | .body =>
    if b.thenTarget.isSome || b.loopExit.isSome then
      ["shape=box", "fillcolor=\"#87CEEB\"", "style=filled"]
    else if b.sealed then ["shape=box", "fillcolor=\"#DDA0DD\"", "style=filled"]
    else ["shape=box"]

/-- An edge that does not lead to a block with a greater number closes a loop. -/
def isBackEdge (source target : Block) : Bool :=
  match source.kind, target.kind, source.id, target.id with
  | .body, .body, some i, some j => j ≤ i
  | _, _, _, _ => false

/-- How the edge from `source` to the block `h`, which looks like `target`, looks. -/
def edgeAttributes (source : Block) (h : Nat) (target : Block) : List String :=
  (if source.thenTarget = some h then ["label=\"then\"", "color=\"#228B22\""]
    else if source.elseTarget = some h then ["label=\"else\"", "color=\"#DC143C\""]
    else if source.loopExit = some h then ["label=\"loop_end\""]
    else [])
  ++ (if isBackEdge source target then ["style=dashed", "constraint=false"] else [])

/-- The line of a node. -/
def nodeLine (name : String) (b : Block) (showLines : Bool) : String :=
  let text := Text.trim (String.join b.lines)
  let label := if showLines && !text.isEmpty then name ++ "\n" ++ text else name
  "    \"" ++ name ++ "\" [label=\"" ++ escapeLabel label ++ "\", "
    ++ ", ".intercalate (nodeAttributes b) ++ "];"

/-- The line of an edge. -/
def edgeLine (source target : String) (attributes : List String) : String :=
  "    \"" ++ source ++ "\" -> \"" ++ target ++ "\""
    ++ (if attributes.isEmpty then "" else " [" ++ ", ".intercalate attributes ++ "]") ++ ";"

/-- The lines of the edges that leave a block. -/
def edgeLines (g : Graph) (name : String) (b : Block) : Except Fault (List String) := do
  let lines ← b.successors.toList.mapM fun h => do
    let target ← g.find h
    return (g.labelOf? h target).map fun label =>
      edgeLine name label (edgeAttributes b h target)
  return lines.filterMap id

/-- The lines of the cluster of a function. -/
def clusterLines (g : Graph) (index : Nat) (showLines : Bool) :
    Except Fault (List String) := do
  let blocks := (← g.printed).filterMap fun (h, b) => (g.labelOf? h b).map (·, b)
  let nodes := blocks.map fun (name, b) => nodeLine name b showLines
  let edges ← blocks.mapM fun (name, b) => edgeLines g name b
  return [s!"  subgraph cluster_{index} \x7b", "    label=\"" ++ escapeLabel g.name ++ "\";"]
    ++ nodes ++ edges.flatten ++ ["  \x7d"]

/-- The DOT form of a program. -/
def programDot (p : Program) (options : DotOptions := {}) : Except Fault String := do
  let clusters ← p.functions.zipIdx.mapM fun (g, index) =>
    return "" :: (← clusterLines g index options.showLines)
  let heading := [
    "digraph CFG \x7b",
    "  label=\"" ++ escapeLabel (options.title.getD p.sourceFile) ++ "\";",
    "  labelloc=\"t\";",
    "  fontsize=16;",
    "  rankdir=\"" ++ (if options.leftToRight then "LR" else "TB") ++ "\";",
    "  node [fontname=\"monospace\", fontsize=10];",
    "  edge [fontname=\"monospace\", fontsize=9];"]
  return "\n".intercalate (heading ++ clusters.flatten ++ ["\x7d"])

end Flowgraph.Render
