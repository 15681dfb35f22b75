import Flowgraph.Graph

/-!
# Growing a graph

A builder keeps one open edge, from its current block to the end of the innermost scope
(or to the exit when no scope is open).  A new block is spliced into that edge,

    current → end    becomes    current → block → end

and is the current block from then on.  Sequences, the arms of a branch and the bodies of
loops are all grown in this way.

The scopes that are open are kept as one stack of pairs.  A scope is opened with its start and
its end known, and closed with both of them; no call works on the starts or the ends alone.

A block that a return has sealed takes nothing further: the calls that would grow the
graph at it do nothing and answer `false`.
-/

namespace Flowgraph

/-- A part of the graph that is still being grown: it leads from `start` to `stop`.  The starts of
the open scopes and their ends would be two stacks that always have the same height. -/
structure Scope where
  /-- Where the scope began: the branching block, or the header of a loop. -/
  start : Nat
  /-- Where the scope leads: the join block, or the header of a loop. -/
  stop : Nat
  deriving DecidableEq, Repr, Inhabited

/-- A graph that is being grown. -/
structure Builder where
  graph : Graph
  /-- The block at which the graph grows. -/
  current : Nat
  /-- The open scopes, the innermost one first.  `openLoop` and `openBranch` push a start and an end
  at once, `close` pops both, and every other call only looks at those on top. -/
  scopes : List Scope := []
  deriving DecidableEq, Inhabited

/-- A call on a builder. -/
abbrev Build := Edit Builder

namespace Builder

/-- The builder of a function's graph: entry, a first numbered block, and exit in a row, with
the first block as the current one. -/
def ofSignature (name : String) (returnType parameters : List String) : Builder where
  graph :=
    { Graph.ofSignature name returnType parameters with
      arena := #[
        { kind := .entry, successors := .singleton 2 },
        { kind := .exit, predecessors := .singleton 2 },
        { kind := .body, id := some 0, predecessors := .singleton Graph.entry,
          successors := .singleton Graph.exit }]
      table := [2] }
  current := 2

/-- How many scopes are open. -/
def depth (b : Builder) : Nat := b.scopes.length

/-- Where the open edge leads. -/
def fallthrough (b : Builder) : Nat :=
  match b.scopes with
  | [] => Graph.exit
  | scope :: _ => scope.stop

/-- Work on the graph of the builder. -/
def onGraph {α : Type} : Edit Graph α → Build α :=
  Edit.onPart Builder.graph fun b g => { b with graph := g }

/-- The current block. -/
def currentBlock : Build Block := Edit.inspect fun b => b.graph.find b.current

/-- The handle of the current block. -/
def currentHandle : Build Nat := return (← get).current

/-- Add a fragment to the current block; `false` if it is sealed. -/
def append (text : String) : Build Bool := do
  if (← currentBlock).sealed then return false
  onGraph (Graph.change (← currentHandle) (·.addLines [text]))
  return true

/-- Splice an anonymous block into the open edge.  Answers the block that the edge left, or
`none` if that block is sealed. -/
def splice : Build (Option Nat) := do
  if (← currentBlock).sealed then return none
  let b ← get
  let block ← onGraph do
    let block ← Graph.allocate .body
    Graph.disconnect b.current b.fallthrough
    Graph.connect b.current block
    Graph.connect block b.fallthrough
    return block
  modify fun b => { b with current := block }
  return some b.current

/-- Splice a numbered block into the open edge. -/
def advance : Build Bool := do
  match ← splice with
  | none => return false
  | some _ =>
    let _ ← onGraph (Graph.register (← currentHandle))
    return true

/-- Open the scope of a loop: a new header is both its start and its end. -/
def openLoop : Build Bool := do
  if ← advance then
    modify fun b => { b with scopes := ⟨b.current, b.current⟩ :: b.scopes }
    return true
  return false

/-- Open the scope of a branch.  It starts at the branching block and ends at a new block
that stays anonymous until the scope is closed. -/
def openBranch : Build Bool := do
  match ← splice with
  | none => return false
  | some branching =>
    modify fun b => { b with scopes := ⟨branching, b.current⟩ :: b.scopes }
    return true

/-- Go back to the start of the innermost scope. -/
def rewind : Build Unit := do
  match (← get).scopes with
  | [] => throw (.nesting .rewind 0)
  | scope :: _ => modify fun b => { b with current := scope.start }

/-- Leave the innermost scope and go on at its end, which gets a number if it has none.
Answers whether that block still takes something. -/
def close : Build Bool := do
  match (← get).scopes with
  | [] => throw (.nesting .close 0)
  | scope :: rest =>
    modify fun b => { b with current := scope.stop, scopes := rest }
    let block ← currentBlock
    if block.id.isNone then
      let _ ← onGraph (Graph.register scope.stop)
    return !block.sealed

/-- End the current block with a return: the exit becomes its only successor. -/
def sealToExit : Build Unit := do
  let current ← currentHandle
  let block ← currentBlock
  onGraph do
    block.successors.toList.forM fun next => Graph.disconnect current next
    Graph.connect current Graph.exit
    Graph.change current fun b => { b with sealed := true }

/-- Run `body` and then, whether it ended well or not, run `close`.  A fault of `close` takes
the place of one of `body`. -/
def closing (body : Build Unit) : Build Bool := fun b =>
  match body b with
  | .ok _ b => close b
  | .error fault b =>
    match close b with
    | .ok _ b => .error fault b
    | .error later b => .error later b

/-- Run `body` inside the scope of a branch; `false` if the scope could not be opened. -/
def withBranch (body : Build Unit) : Build Bool := do
  if ← openBranch then
    let _ ← closing body
    return true
  return false

/-- Run `body` inside the scope of a loop; `false` if the scope could not be opened, or if its
header is sealed when the scope is closed. -/
def withLoop (body : Build Unit) : Build Bool := do
  if ← openLoop then closing body
  else return false

/-- Let the then-arm of `branching` begin at the current block. -/
def recordThen (branching : Nat) : Build Unit := do
  let current ← currentHandle
  onGraph (Graph.change branching fun b => { b with thenTarget := some current })

/-- Let the else-arm of `branching` begin at the current block. -/
def recordElse (branching : Nat) : Build Unit := do
  let current ← currentHandle
  onGraph (Graph.change branching fun b => { b with elseTarget := some current })

/-- Let the loop of `header` go on at the current block when it ends. -/
def recordLoopExit (header : Nat) : Build Unit := do
  let current ← currentHandle
  onGraph (Graph.change header fun b => { b with loopExit := some current })

/-- Hand over the graph; every scope has to be closed. -/
def finish : Build Graph := do
  let b ← get
  if b.depth = 0 then return b.graph
  else throw (.nesting .finish b.depth)

end Builder

end Flowgraph
