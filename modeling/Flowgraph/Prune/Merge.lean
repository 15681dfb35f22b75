import Flowgraph.Graph

/-!
# Merging chains

A block takes over its successor when that is its only successor and has no other
predecessor.  A visit goes on until there is nothing left to take over, so a chain
collapses in one visit to its first block.
-/

namespace Flowgraph.Graph

/-- Let `h` take over the block `next`: its text, its edges and its targets. -/
def absorb (h next : Nat) : Edit Graph Unit := do
  let taken ← look next
  change h fun b => (b.addLines taken.lines).dropSuccessor next
  taken.successors.toList.forM fun s => do
    change s fun b => (b.dropPredecessor next).addPredecessor h
    change h (·.addSuccessor s)
  change h (·.withTargetsOf taken)
  change next Block.retire

/-- The block that `h` can take over, if there is one. -/
def absorbable? (h : Nat) : Edit Graph (Option Nat) := do
  match (← look h).successors.toList with
  | [next] =>
    let block ← look next
    if block.kind = .exit || next = h || block.predecessors.size ≠ 1 then return none
    else return some next
  | _ => return none

/-- Let `h` take over one block after the other, at most `fuel` of them.  Answers how many
these were. -/
def absorbAll (h : Nat) : (fuel : Nat) → Edit Graph Nat
  | 0 => return 0
  | fuel + 1 => do
    match ← absorbable? h with
    | none => return 0
    | some next =>
      absorb h next
      return (← absorbAll h fuel) + 1

/-- Visit one block of the table.  A chain that ends passes no block twice, so the number of
blocks is fuel enough. -/
def mergeFrom (h : Nat) : Edit Graph Nat := do
  if (← look h).id.isNone then return 0
  absorbAll h (← get).arena.size

/-- Merge every straight chain into its first block.  Answers how many blocks were taken
over. -/
def mergeChains : Edit Graph Nat := do
  (← get).table.foldlM (fun merged h => return merged + (← mergeFrom h)) 0

end Flowgraph.Graph
