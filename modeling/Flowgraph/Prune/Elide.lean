import Flowgraph.Graph

/-!
# Eliding empty blocks

A block without text is bypassed: every edge into it becomes an edge to its successor, and
so does every target that named it.  Join points, the places kept for loop updates and
empty arms are empty, and each of them has one successor.
-/

namespace Flowgraph.Graph

/-- Let the predecessor `p` of `h` go around it: its targets move to `next`, its edge to the
successors of `h`. -/
def detour (h next p : Nat) : Edit Graph Unit := do
  change p fun b => (b.retarget h next).dropSuccessor h
  let successors := (← look h).successors
  change p (·.addSuccessors successors)

/-- Let the successor `s` of `h` be entered from the predecessors of `h` instead. -/
def adopt (h s : Nat) : Edit Graph Unit := do
  change s (·.dropPredecessor h)
  let predecessors := (← look h).predecessors
  change s (·.addPredecessors predecessors)

/-- Bypass block `h`, which then has no number. -/
def bypass (h : Nat) : Edit Graph Unit := do
  let next ← Edit.inspect (soleSuccessor · h)
  (← look h).predecessors.toList.forM (detour h next)
  (← look h).successors.toList.forM (adopt h)
  change h Block.retire

/-- Bypass the blocks without text.  Answers how many these were. -/
def elideEmpty : Edit Graph Nat := do
  let empty := (← Edit.inspect alive).filter (·.2.lines.isEmpty)
  empty.forM fun (h, _) => bypass h
  return empty.length

end Flowgraph.Graph
