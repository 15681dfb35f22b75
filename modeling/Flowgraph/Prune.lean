import Flowgraph.Prune.Elide
import Flowgraph.Prune.Merge
import Flowgraph.Prune.Reach

/-!
# Pruning

Pruning brings a finished graph into its canonical form: unreachable blocks are dropped,
empty ones elided, straight chains merged, and what is left is numbered.  Removed blocks
keep their places in the table, so every pass walks the blocks in order of creation.
-/

namespace Flowgraph

/-- What each pass did to a graph. -/
structure PruneReport where
  /-- Numbered blocks before pruning. -/
  created : Nat
  unreachable : Nat
  elided : Nat
  merged : Nat
  /-- Numbered blocks left after pruning. -/
  surviving : Nat
  deriving DecidableEq, Repr, Inhabited

/-- Number the blocks that are alive: those that are left get the display numbers `0, 1, …` in
order of creation.  Answers how many these are. -/
def Graph.renumber : Edit Graph Nat := do
  modify fun g => { g with numbering := {} }
  let blocks ← Edit.inspect alive
  let numbering := blocks.foldl (fun (n : Numbering) block => n.set block.1 n.size) {}
  modify fun g => { g with numbering }
  return numbering.size

/-- Run the four passes.  A graph can be pruned only once. -/
def Graph.prune : Edit Graph PruneReport := do
  let g ← get
  if g.phase = .pruned then throw (.alreadyPruned g.name)
  let unreachable ← dropUnreachable
  let elided ← elideEmpty
  let merged ← mergeChains
  let surviving ← renumber
  modify fun g => { g with phase := .pruned }
  return { created := g.table.length, unreachable, elided, merged, surviving }

end Flowgraph
