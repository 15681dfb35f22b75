import Flowgraph.Json.Printer
import Flowgraph.Label

/-!
# Records

The plain data of a pruned program: for every block its label, its fragments, and the labels
of its neighbours and targets; and the JSON value that holds them.
-/

namespace Flowgraph

/-- One block as plain data. -/
structure BlockRecord where
  name : String
  lines : List String
  predecessors : List String
  successors : List String
  thenTarget : Option String
  elseTarget : Option String
  loopExit : Option String
  deriving DecidableEq, Repr, Inhabited

/-- One graph as plain data. -/
structure GraphRecord where
  name : String
  returnType : List String
  parameters : List String
  blocks : List BlockRecord
  deriving DecidableEq, Repr, Inhabited

/-- A program as plain data. -/
structure ProgramRecord where
  sourceFile : String
  globals : List String
  functions : List GraphRecord
  deriving DecidableEq, Repr, Inhabited

namespace Graph

/-- The plain data of block `h`, which looks like `b`; `none` for a block that was removed. -/
def blockRecord? (g : Graph) (h : Nat) (b : Block) : Except Fault (Option BlockRecord) :=
  match g.labelOf? h b with
  | none => return none
  | some name => do
    let predecessors ← g.sortedLabels b.predecessors.toList
    let successors ← g.sortedLabels b.successors.toList
    let thenTarget ← g.targetLabel? b.thenTarget
    let elseTarget ← g.targetLabel? b.elseTarget
    let loopExit ← g.targetLabel? b.loopExit
    return some
      { name, lines := b.lines, predecessors, successors, thenTarget, elseTarget, loopExit }

/-- The plain data of a graph. -/
def record (g : Graph) : Except Fault GraphRecord := do
  let blocks ← (← g.printed).mapM fun (h, b) => g.blockRecord? h b
  return {
    name := g.name
    returnType := g.returnType
    parameters := g.parameters
    blocks := blocks.filterMap id }

end Graph

/-- The plain data of a program. -/
def Program.record (p : Program) : Except Fault ProgramRecord := do
  let functions ← p.functions.mapM Graph.record
  return { sourceFile := p.sourceFile, globals := p.globals, functions }

namespace Render

/-- The JSON value of a block. -/
def blockJson (b : BlockRecord) : Json :=
  .object [
    ("name", .string b.name),
    ("lines", .ofStrings b.lines),
    ("predecessors", .ofStrings b.predecessors),
    ("successors", .ofStrings b.successors),
    ("then", .ofString? b.thenTarget),
    ("else", .ofString? b.elseTarget),
    ("loopEnd", .ofString? b.loopExit)]

/-- The JSON value of a graph. -/
def graphJson (g : GraphRecord) : Json :=
  .object [
    ("name", .string g.name),
    ("returnType", .ofStrings g.returnType),
    ("parameters", .ofStrings g.parameters),
    ("blocks", .array (g.blocks.map blockJson))]

/-- The JSON value of a program. -/
def programJson (p : ProgramRecord) : Json :=
  .object [
    ("program", .string p.sourceFile),
    ("globals", .ofStrings p.globals),
    ("functions", .array (p.functions.map graphJson))]

end Render

end Flowgraph
