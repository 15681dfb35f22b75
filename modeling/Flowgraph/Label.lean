import Flowgraph.Graph

/-!
# Labels

The name under which a block is printed: the function's name with `entry`, `exit` or the
block's display number.  A block that was removed has none.
-/

namespace Flowgraph

namespace Block

/-- The order in which neighbours are listed: numbered blocks by number, then the entry, then
the exit. -/
def comesBefore (a b : Block) : Bool :=
  match a.id, b.id with
  | some i, some j => i ≤ j
  | some _, none => true
  | none, some _ => false
  | none, none => rank a.kind ≤ rank b.kind
where
  /-- Kinds in alphabetical order. -/
  rank : BlockKind → Nat
    | .body => 0
    | .entry => 1
    | .exit => 2

end Block

namespace Graph

/-- The label of block `h`, which looks like `b`. -/
def labelOf? (g : Graph) (h : Nat) (b : Block) : Option String :=
  match b.kind with
  | .entry => some (g.name ++ "_entry")
  | .exit => some (g.name ++ "_exit")
  | .body =>
    match b.id, g.numbering.get? h with
    | some _, some i => some (g.name ++ s!"_B{i}")
    | _, _ => none

/-- The label of block `h`; `none` for a block that was removed. -/
def label? (g : Graph) (h : Nat) : Except Fault (Option String) :=
  return g.labelOf? h (← g.find h)

/-- The label of the block that a target names. -/
def targetLabel? (g : Graph) (target : Option Nat) : Except Fault (Option String) :=
  match target with
  | none => return none
  | some h => g.label? h

/-- The labels of the live blocks among `hs`, in the order in which neighbours are listed. -/
def sortedLabels (g : Graph) (hs : List Nat) : Except Fault (List String) := do
  let blocks ← hs.mapM fun h => return (h, ← g.find h)
  let live := blocks.filter (·.2.isAlive)
  let sorted := live.mergeSort fun a b => a.2.comesBefore b.2
  return sorted.filterMap fun (h, b) => g.labelOf? h b

/-- The blocks that are printed: the entry, the live numbered blocks, the exit. -/
def printed (g : Graph) : Except Fault (List (Nat × Block)) := do
  let first := (entry, ← g.find entry)
  let live ← g.alive
  let last := (exit, ← g.find exit)
  return first :: live ++ [last]

end Graph

end Flowgraph
