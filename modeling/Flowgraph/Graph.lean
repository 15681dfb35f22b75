import Flowgraph.Block

/-!
# Control-flow graphs

A graph owns its blocks in an arena and refers to them by handle.  Every edge is kept at
both of its ends: as a successor of the block it leaves and as a predecessor of the block
it enters.

The operations of this module are edits: an unknown handle stops them, and what they did
before they met it stays.  `change_ok`, `connect_ok` and `disconnect_ok` say what they do
to known handles.
-/

namespace Flowgraph

/-- A graph is pruned once, after it was grown and before it is printed. -/
inductive Phase where
  | building
  | pruned
  deriving DecidableEq, Repr, Inhabited

/-- The display numbers of blocks, in the order in which they were first given. -/
structure Numbering where
  entries : List (Nat × Nat) := []
  deriving DecidableEq, Repr, Inhabited

namespace Numbering

def size (n : Numbering) : Nat := n.entries.length

def get? (n : Numbering) (h : Nat) : Option Nat := n.entries.lookup h

/-- Give `h` the number `i`; a block that had a number keeps its place in the order. -/
def set (n : Numbering) (h : Nat) (i : Nat) : Numbering :=
  if (n.get? h).isSome then
    ⟨n.entries.map fun entry => if entry.1 = h then (h, i) else entry⟩
  else ⟨n.entries ++ [(h, i)]⟩

end Numbering

/-- The control-flow graph of one function. -/
structure Graph where
  /-- The function's name, with which every label begins. -/
  name : String
  /-- The fragments of the return type. -/
  returnType : List String
  /-- The fragments of the parameter list. -/
  parameters : List String
  /-- Every block ever made; block `i` has handle `i`. -/
  arena : Array Block
  /-- The numbered blocks in the order in which they got their numbers.  Removed blocks keep
  their places. -/
  table : List Nat := []
  numbering : Numbering := {}
  phase : Phase := .building
  deriving DecidableEq, Inhabited

/-- What is printed for one source file: the statements at file scope, and a graph for every
function. -/
structure Program where
  /-- The name shown for the file. -/
  sourceFile : String
  /-- The fragments of the statements at file scope. -/
  globals : List String
  /-- One graph for every function, in source order. -/
  functions : List Graph
  deriving Inhabited

namespace Graph

/-- Where control enters the function. -/
def entry : Nat := 0

/-- Where control leaves the function. -/
def exit : Nat := 1

/-- A graph with its entry and its exit, not connected to each other. -/
def ofSignature (name : String) (returnType parameters : List String) : Graph where
  name
  returnType
  parameters
  arena := #[{ kind := .entry }, { kind := .exit }]

/-- The block with handle `h`, if there is one. -/
def block? (g : Graph) (h : Nat) : Option Block := g.arena[h]?

/-- The block with handle `h`. -/
def find (g : Graph) (h : Nat) : Except Fault Block :=
  match g.block? h with
  | some b => .ok b
  | none => .error (.noBlock g.name h)

/-- The block with handle `h`, inside an edit. -/
def look (h : Nat) : Edit Graph Block := Edit.inspect (find · h)

/-- Replace the block with handle `h` by what `f` makes of it. -/
def change (h : Nat) (f : Block → Block) : Edit Graph Unit := fun g =>
  match g.block? h with
  | some _ => .ok () { g with arena := g.arena.modify h f }
  | none => .error (.noBlock g.name h) g

/-- Make a new anonymous block. -/
def allocate (kind : BlockKind) : Edit Graph Nat := fun g =>
  .ok g.arena.size { g with arena := g.arena.push { kind } }

/-- Give a block the next number. -/
def register (h : Nat) : Edit Graph Nat := do
  let id := (← get).table.length
  modify fun g => { g with table := g.table ++ [h] }
  change h fun b => { b with id := some id }
  return id

/-- Draw the edge from `a` to `b`. -/
def connect (a b : Nat) : Edit Graph Unit := do
  change a (·.addSuccessor b)
  change b (·.addPredecessor a)

/-- Remove the edge from `a` to `b`. -/
def disconnect (a b : Nat) : Edit Graph Unit := do
  change a (·.dropSuccessor b)
  change b (·.dropPredecessor a)

/-- The successor of a block known to have exactly one. -/
def soleSuccessor (g : Graph) (h : Nat) : Except Fault Nat := do
  let b ← g.find h
  match b.successors.first? with
  | some next => return next
  | none => .error (.noSuccessor g.name (b.id.getD h))

/-- The numbered blocks that are alive, in the order of the table. -/
def alive (g : Graph) : Except Fault (List (Nat × Block)) := do
  let blocks ← g.table.mapM fun h => return (h, ← g.find h)
  return blocks.filter (·.2.isAlive)

/-! ## What the edits do to known handles -/

@[simp] theorem find_eq_ok {g : Graph} {h : Nat} {b : Block} :
    g.find h = .ok b ↔ g.block? h = some b := by
  unfold find
  split <;> simp_all

theorem change_ok {g : Graph} {h : Nat} {b : Block} (f : Block → Block)
    (known : g.block? h = some b) :
    change h f g = .ok () { g with arena := g.arena.modify h f } := by
  simp [change, known]

/-- After a change, a block is what the change made of it if it was the one that was meant,
and what it was before otherwise. -/
theorem block?_modify (g : Graph) (h : Nat) (f : Block → Block) (k : Nat) :
    { g with arena := g.arena.modify h f }.block? k =
      if h = k then (g.block? k).map f else g.block? k := by
  simp [block?, Array.getElem?_modify]

theorem block?_isSome_iff {g : Graph} {h : Nat} :
    (g.block? h).isSome ↔ h < g.arena.size := by
  simp [block?]

theorem connect_ok {g : Graph} {a b : Nat} (ha : (g.block? a).isSome)
    (hb : (g.block? b).isSome) :
    connect a b g = .ok () { g with arena :=
      (g.arena.modify a (·.addSuccessor b)).modify b (·.addPredecessor a) } := by
  obtain ⟨_, ha⟩ := Option.isSome_iff_exists.1 ha
  have hb' : ({ g with arena := g.arena.modify a (·.addSuccessor b) }.block? b).isSome := by
    rw [block?_modify]
    split <;> simp [hb]
  obtain ⟨_, hb'⟩ := Option.isSome_iff_exists.1 hb'
  simp only [connect, bind, EStateM.bind, change_ok _ ha, change_ok _ hb']

theorem disconnect_ok {g : Graph} {a b : Nat} (ha : (g.block? a).isSome)
    (hb : (g.block? b).isSome) :
    disconnect a b g = .ok () { g with arena :=
      (g.arena.modify a (·.dropSuccessor b)).modify b (·.dropPredecessor a) } := by
  obtain ⟨_, ha⟩ := Option.isSome_iff_exists.1 ha
  have hb' : ({ g with arena := g.arena.modify a (·.dropSuccessor b) }.block? b).isSome := by
    rw [block?_modify]
    split <;> simp [hb]
  obtain ⟨_, hb'⟩ := Option.isSome_iff_exists.1 hb'
  simp only [disconnect, bind, EStateM.bind, change_ok _ ha, change_ok _ hb']

theorem register_ok {g : Graph} {h : Nat} (known : (g.block? h).isSome) :
    register h g = .ok g.table.length { g with
      table := g.table ++ [h]
      arena := g.arena.modify h fun b => { b with id := some g.table.length } } := by
  obtain ⟨_, known⟩ := Option.isSome_iff_exists.1 known
  have known' : { g with table := g.table ++ [h] }.block? h = some _ := known
  have changed := change_ok (fun b => { b with id := some g.table.length }) known'
  show EStateM.bind (change h _) (fun _ => pure g.table.length)
    { g with table := g.table ++ [h] } = _
  simp only [EStateM.bind, changed]
  rfl

end Graph

end Flowgraph
