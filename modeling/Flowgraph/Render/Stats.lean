import Flowgraph.Label

/-!
# Statistics

A count of the blocks of a pruned graph, of its edges, and of the blocks that branch, head a
loop or return.
-/

namespace Flowgraph

/-- The counts of a graph. -/
structure Stats where
  blocks : Nat
  edges : Nat
  branchPoints : Nat
  loopHeaders : Nat
  returningBlocks : Nat
  deriving DecidableEq, Repr, Inhabited

/-- Count the printed blocks and edges of a graph. -/
def Graph.stats (g : Graph) : Except Fault Stats := do
  let live := (← g.alive).map (·.2)
  let outgoing ← (← g.printed).mapM fun (_, b) => g.sortedLabels b.successors.toList
  return {
    blocks := live.length
    edges := outgoing.flatten.length
    branchPoints := live.countP (·.thenTarget.isSome)
    loopHeaders := live.countP (·.loopExit.isSome)
    returningBlocks := live.countP (·.sealed) }

namespace Render

/-- The counts of a graph as text. -/
def statsText (g : Graph) : Except Fault String := do
  let s ← g.stats
  return "\n".intercalate [
    "CFG Statistics (" ++ g.name ++ "):",
    s!"  Blocks: {s.blocks}",
    s!"  Edges: {s.edges}",
    s!"  Branch points: {s.branchPoints}",
    s!"  Loop headers: {s.loopHeaders}",
    s!"  Returning blocks: {s.returningBlocks}"]

end Render

end Flowgraph
