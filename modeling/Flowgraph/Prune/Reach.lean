import Flowgraph.Graph

/-!
# Dropping unreachable blocks

One sweep over the table, in order of creation, from the first numbered block.  Apart from
the edges back to loop headers every edge leads to a block with a greater number, and a
header is always reached through the block before it; so a block that is not reached when
the sweep comes to it is not reachable at all.
-/

namespace Flowgraph.Graph

/-- What a sweep has seen so far. -/
structure Sweep where
  /-- The blocks that are reached. -/
  reached : OrderedSet Nat := ∅
  /-- How many blocks were dropped. -/
  dropped : Nat := 0

/-- Drop block `h`: it loses its number, and its successors forget it. -/
def drop (h : Nat) : Edit Graph Unit := do
  change h Block.retire
  let block ← look h
  block.successors.toList.forM fun next => change next (·.dropPredecessor h)

/-- Sweep over one block of the table. -/
def sweepBlock (s : Sweep) (h : Nat) : Edit Graph Sweep := do
  let block ← look h
  if h ∈ s.reached then
    return { s with reached := s.reached.union block.successors }
  drop h
  return { s with dropped := s.dropped + 1 }

/-- Drop the blocks that cannot be reached from the first numbered one.  Answers how many
these were. -/
def dropUnreachable : Edit Graph Nat := do
  let table := (← get).table
  let start : Sweep := { reached := (table.head?.elim ∅ .singleton) }
  return (← table.foldlM sweepBlock start).dropped

end Flowgraph.Graph
