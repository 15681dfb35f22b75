import Flowgraph.Builder
import Flowgraph.Fragment
import Flowgraph.Statement

/-!
# The graph of a function

Walks the statements of a function and grows its graph.  What follows a return in the same
sequence meets a sealed block and leaves no trace.  The statements at file scope have no graph:
they are only written out.
-/

namespace Flowgraph

namespace Builder

/-- Add fragments to the current block, one by one. -/
def appendAll (fragments : List String) : Build Unit :=
  fragments.forM fun fragment => discard (append fragment)

/-- The current block is the header of a loop that ends here: go on at a new block, and let
the loop lead to it. -/
def leaveLoop : Build Unit := do
  let header ← currentHandle
  let _ ← advance
  recordLoopExit header

end Builder

open Builder

namespace Statement

mutual

/-- Grow the graph of a statement. -/
def grow : Statement → Build Unit
  | .simple tokens _ => appendAll (Fragment.statement tokens)
  | .sequence body _ => growAll body
  | .ret tokens _ => do
    appendAll (Fragment.statement tokens)
    sealToExit
  | .branch condition consequent alternate _ => do
    appendAll (Fragment.ifHeader condition)
    let _ ← withBranch do
      rewind
      let branching ← currentHandle
      let _ ← advance
      recordThen branching
      grow consequent
      rewind
      let _ ← advance
      recordElse branching
      growOption alternate
  | .whileLoop condition body _ => do
    let resumed ← withLoop do
      appendAll (Fragment.whileHeader condition)
      let _ ← advance
      grow body
    if resumed then leaveLoop
  | .forLoop init condition update body _ => do
    if let some init := init then appendAll (Fragment.clause init)
    let resumed ← withLoop do
      appendAll (Fragment.forHeader condition)
      let _ ← advance
      -- The update runs after the body: its block comes first, and the body is then grown
      -- in front of it.
      let _ ← withBranch do
        if let some update := update then appendAll (Fragment.clause update)
        rewind
        grow body
    if resumed then leaveLoop

/-- Grow the graphs of statements in a row. -/
def growAll : List Statement → Build Unit
  | [] => return
  | s :: rest => do
    grow s
    growAll rest

/-- Grow the graph of an arm, if there is one. -/
def growOption : Option Statement → Build Unit
  | none => return
  | some s => grow s

end

end Statement

/-- The graph of a function, not yet pruned. -/
def SourceFunction.graph (f : SourceFunction) : Except Fault Graph :=
  let start := Builder.ofSignature f.name (Fragment.ofTokens f.returnType)
    (Fragment.ofTokens f.parameters)
  match (do f.body.grow; finish : Build Graph) start with
  | .ok graph _ => .ok graph
  | .error fault _ => .error fault

/-- The fragments of the statements at file scope, one line each. -/
def Program.globalLines (statements : List (List String)) : List String :=
  statements.flatMap Fragment.statement

end Flowgraph
