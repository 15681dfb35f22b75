import Flowgraph.Fault
import Flowgraph.OrderedSet

/-!
# Blocks

A block holds text fragments and knows its neighbours by their handles.  It is made
anonymous; numbering it makes it one of the blocks that are printed, and pruning takes
the number away again.
-/

namespace Flowgraph

/-- The part a block plays in its graph. -/
inductive BlockKind where
  /-- Where the function starts. -/
  | entry
  /-- Where the function ends. -/
  | exit
  /-- Everything in between. -/
  | body
  deriving DecidableEq, Repr, Inhabited

/-- A basic block. -/
structure Block where
  kind : BlockKind
  /-- The number given in order of creation; `none` for an anonymous or removed block. -/
  id : Option Nat := none
  /-- The text fragments, in the order in which they were added. -/
  lines : List String := []
  /-- Set by a return: nothing more is added. -/
  sealed : Bool := false
  predecessors : OrderedSet Nat := ∅
  successors : OrderedSet Nat := ∅
  /-- For a block that ends in an `if`: where its then-arm begins. -/
  thenTarget : Option Nat := none
  /-- For a block that ends in an `if`: where its else-arm begins. -/
  elseTarget : Option Nat := none
  /-- For the header of a loop: where control goes when the loop ends. -/
  loopExit : Option Nat := none
  deriving DecidableEq, Inhabited

namespace Block

/-- The entry and the exit are always alive, any other block while it has a number. -/
def isAlive (b : Block) : Bool := b.kind != .body || b.id.isSome

def addLines (b : Block) (texts : List String) : Block := { b with lines := b.lines ++ texts }

def addPredecessor (b : Block) (h : Nat) : Block :=
  { b with predecessors := b.predecessors.insert h }

def addSuccessor (b : Block) (h : Nat) : Block :=
  { b with successors := b.successors.insert h }

def dropPredecessor (b : Block) (h : Nat) : Block :=
  { b with predecessors := b.predecessors.erase h }

def dropSuccessor (b : Block) (h : Nat) : Block :=
  { b with successors := b.successors.erase h }

def addPredecessors (b : Block) (hs : OrderedSet Nat) : Block :=
  { b with predecessors := b.predecessors.union hs }

def addSuccessors (b : Block) (hs : OrderedSet Nat) : Block :=
  { b with successors := b.successors.union hs }

/-- Take the number away. -/
def retire (b : Block) : Block := { b with id := none }

/-- Let every target that was `old` be `new`. -/
def retarget (b : Block) (old new : Nat) : Block :=
  let follow : Option Nat → Option Nat := fun target =>
    if target = some old then some new else target
  { b with
    thenTarget := follow b.thenTarget
    elseTarget := follow b.elseTarget
    loopExit := follow b.loopExit }

/-- Take over the targets of another block. -/
def withTargetsOf (b other : Block) : Block :=
  { b with
    thenTarget := other.thenTarget
    elseTarget := other.elseTarget
    loopExit := other.loopExit }

end Block

end Flowgraph
