import Flowgraph.Graph

/-!
# Edges and what else a block holds

A graph keeps every edge twice, so there are two ways to ask for it: `Edge` looks at the block
that the edge leaves, `Entered` at the block that it enters.  In a `Mirrored` graph they agree.

What a block holds besides its predecessors is its core.  Growing a graph draws edges into
blocks that are finished otherwise, so cores are what stays.

The edits of a graph are restated as functions on graphs (`revise`, `withEdge`, `withoutEdge`,
`withBlock`), with one lemma for each view of a graph.
-/

namespace Flowgraph

theorem exists_map_eq_some {α β : Type} {o : Option α} {f : α → β} {p : β → Prop} :
    (∃ y, o.map f = some y ∧ p y) ↔ ∃ x, o = some x ∧ p (f x) := by
  cases o <;> simp

namespace Block

/-- What a block holds besides its predecessors. -/
def core (b : Block) : Block := { b with predecessors := ∅ }

@[simp] theorem core_addPredecessor (b : Block) (h : Nat) : (b.addPredecessor h).core = b.core :=
  rfl

@[simp] theorem core_dropPredecessor (b : Block) (h : Nat) :
    (b.dropPredecessor h).core = b.core := rfl

@[simp] theorem core_addSuccessor (b : Block) (h : Nat) :
    (b.addSuccessor h).core = b.core.addSuccessor h := rfl

@[simp] theorem core_dropSuccessor (b : Block) (h : Nat) :
    (b.dropSuccessor h).core = b.core.dropSuccessor h := rfl

end Block

namespace Graph

variable {g : Graph} {a b h u v : Nat}

/-- Block `u` has `v` as a successor. -/
def Edge (g : Graph) (u v : Nat) : Prop := ∃ x, g.block? u = some x ∧ v ∈ x.successors

/-- Block `v` has `u` as a predecessor. -/
def Entered (g : Graph) (u v : Nat) : Prop := ∃ y, g.block? v = some y ∧ u ∈ y.predecessors

/-- Every edge is kept at both of its ends. -/
def Mirrored (g : Graph) : Prop := ∀ u v, g.Edge u v ↔ g.Entered u v

/-- What block `h` holds besides its predecessors. -/
def core? (g : Graph) (h : Nat) : Option Block := (g.block? h).map Block.core

theorem core?_eq_some {x : Block} :
    g.core? h = some x ↔ ∃ y, g.block? h = some y ∧ y.core = x := by
  simp [core?]

theorem edge_iff_core : g.Edge u v ↔ ∃ x, g.core? u = some x ∧ v ∈ x.successors := by
  simp only [Edge, core?, exists_map_eq_some, Block.core]

theorem edge_of_block {b : Block} (found : g.block? u = some b) : g.Edge u v ↔ v ∈ b.successors := by
  simp [Edge, found]

theorem entered_of_block {b : Block} (found : g.block? v = some b) :
    g.Entered u v ↔ u ∈ b.predecessors := by
  simp [Entered, found]

theorem core?_isSome : (g.core? h).isSome = (g.block? h).isSome := by
  simp [core?]

theorem core?_isSome_iff : (g.core? h).isSome ↔ h < g.arena.size := by
  rw [core?_isSome, block?_isSome_iff]

theorem core?_of_size_le (large : g.arena.size ≤ h) : g.core? h = none := by
  rw [← Option.not_isSome_iff_eq_none, core?_isSome_iff]
  omega

/-! ## A change of one block -/

/-- The graph in which block `h` is what `f` makes of it. -/
def revise (g : Graph) (h : Nat) (f : Block → Block) : Graph :=
  { g with arena := g.arena.modify h f }

@[simp] theorem table_revise (f : Block → Block) : (g.revise h f).table = g.table := rfl

@[simp] theorem size_revise (f : Block → Block) :
    (g.revise h f).arena.size = g.arena.size := by
  simp [revise]

theorem block?_revise (f : Block → Block) (k : Nat) :
    (g.revise h f).block? k = if h = k then (g.block? k).map f else g.block? k :=
  block?_modify g h f k

theorem change_run (f : Block → Block) (known : h < g.arena.size) :
    change h f g = .ok () (g.revise h f) := by
  obtain ⟨_, known⟩ := Option.isSome_iff_exists.1 (block?_isSome_iff.2 known)
  exact change_ok f known

theorem core?_revise {f : Block → Block} (commutes : ∀ x, (f x).core = f x.core) (k : Nat) :
    (g.revise h f).core? k = if h = k then (g.core? k).map f else g.core? k := by
  simp only [core?, block?_revise]
  split <;> simp [Function.comp_def, commutes]

theorem edge_revise {f : Block → Block} (same : ∀ x, (f x).successors = x.successors) :
    (g.revise h f).Edge u v ↔ g.Edge u v := by
  simp only [Edge, block?_revise]
  split <;> simp only [exists_map_eq_some, same]

theorem entered_revise {f : Block → Block} (same : ∀ x, (f x).predecessors = x.predecessors) :
    (g.revise h f).Entered u v ↔ g.Entered u v := by
  simp only [Entered, block?_revise]
  split <;> simp only [exists_map_eq_some, same]

/-- A change that leaves the neighbours alone leaves a graph mirrored. -/
theorem Mirrored.revise (mirrored : g.Mirrored) {f : Block → Block}
    (successors : ∀ x, (f x).successors = x.successors)
    (predecessors : ∀ x, (f x).predecessors = x.predecessors) : (g.revise h f).Mirrored := by
  intro u v
  rw [edge_revise successors, entered_revise predecessors]
  exact mirrored u v

/-! ## A new edge -/

/-- The graph with an edge from `a` to `b`. -/
def withEdge (g : Graph) (a b : Nat) : Graph :=
  (g.revise a (·.addSuccessor b)).revise b (·.addPredecessor a)

@[simp] theorem table_withEdge : (g.withEdge a b).table = g.table := rfl

@[simp] theorem size_withEdge : (g.withEdge a b).arena.size = g.arena.size := by
  simp [withEdge]

theorem connect_run (ha : a < g.arena.size) (hb : b < g.arena.size) :
    connect a b g = .ok () (g.withEdge a b) :=
  connect_ok (block?_isSome_iff.2 ha) (block?_isSome_iff.2 hb)

theorem core?_withEdge (k : Nat) :
    (g.withEdge a b).core? k = if a = k then (g.core? k).map (·.addSuccessor b) else g.core? k := by
  simp only [withEdge, core?, block?_revise]
  split <;> split <;> simp [Function.comp_def]

theorem edge_withEdge (known : a < g.arena.size) :
    (g.withEdge a b).Edge u v ↔ g.Edge u v ∨ u = a ∧ v = b := by
  obtain ⟨x, hx⟩ := Option.isSome_iff_exists.1 (core?_isSome_iff.2 known)
  simp only [edge_iff_core, core?_withEdge]
  by_cases eq : a = u
  · subst eq; simp [hx, Block.addSuccessor]
  · simp [eq, Ne.symm eq]

theorem entered_withEdge (known : b < g.arena.size) :
    (g.withEdge a b).Entered u v ↔ g.Entered u v ∨ u = a ∧ v = b := by
  obtain ⟨y, hy⟩ := Option.isSome_iff_exists.1 (block?_isSome_iff.2 known)
  simp only [Entered, withEdge, block?_revise]
  by_cases eq : b = v
  · subst eq
    -- for a loop the block is changed twice, at both of its ends
    by_cases loop : a = b <;> simp [loop, hy, Block.addPredecessor, Block.addSuccessor]
  · by_cases source : a = v <;> simp [eq, Ne.symm eq, source, exists_map_eq_some,
      Block.addSuccessor, -Option.map_eq_some_iff]

theorem Mirrored.withEdge (mirrored : g.Mirrored) (ha : a < g.arena.size)
    (hb : b < g.arena.size) : (g.withEdge a b).Mirrored := by
  intro u v
  rw [edge_withEdge ha, entered_withEdge hb, mirrored u v]

/-! ## An edge less -/

/-- The graph without the edge from `a` to `b`. -/
def withoutEdge (g : Graph) (a b : Nat) : Graph :=
  (g.revise a (·.dropSuccessor b)).revise b (·.dropPredecessor a)

@[simp] theorem table_withoutEdge : (g.withoutEdge a b).table = g.table := rfl

@[simp] theorem size_withoutEdge : (g.withoutEdge a b).arena.size = g.arena.size := by
  simp [withoutEdge]

theorem disconnect_run (ha : a < g.arena.size) (hb : b < g.arena.size) :
    disconnect a b g = .ok () (g.withoutEdge a b) :=
  disconnect_ok (block?_isSome_iff.2 ha) (block?_isSome_iff.2 hb)

theorem core?_withoutEdge (k : Nat) :
    (g.withoutEdge a b).core? k =
      if a = k then (g.core? k).map (·.dropSuccessor b) else g.core? k := by
  simp only [withoutEdge, core?, block?_revise]
  split <;> split <;> simp [Function.comp_def]

theorem edge_withoutEdge :
    (g.withoutEdge a b).Edge u v ↔ g.Edge u v ∧ ¬ (u = a ∧ v = b) := by
  simp only [edge_iff_core, core?_withoutEdge]
  by_cases eq : a = u
  · subst eq
    cases g.core? a <;> simp [Block.dropSuccessor, and_comm]
  · simp [eq, Ne.symm eq]

theorem entered_withoutEdge :
    (g.withoutEdge a b).Entered u v ↔ g.Entered u v ∧ ¬ (u = a ∧ v = b) := by
  simp only [Entered, withoutEdge, block?_revise]
  by_cases eq : b = v
  · subst eq
    by_cases loop : a = b <;> cases g.block? b <;>
      simp [loop, Block.dropPredecessor, Block.dropSuccessor, and_comm]
  · by_cases source : a = v <;> simp [eq, Ne.symm eq, source, exists_map_eq_some,
      Block.dropSuccessor, -Option.map_eq_some_iff]

theorem Mirrored.withoutEdge (mirrored : g.Mirrored) : (g.withoutEdge a b).Mirrored := by
  intro u v
  rw [edge_withoutEdge, entered_withoutEdge, mirrored u v]

/-! ## A new block -/

/-- The graph with a new anonymous block. -/
def withBlock (g : Graph) (kind : BlockKind) : Graph :=
  { g with arena := g.arena.push { kind } }

@[simp] theorem table_withBlock (kind : BlockKind) : (g.withBlock kind).table = g.table := rfl

@[simp] theorem size_withBlock (kind : BlockKind) :
    (g.withBlock kind).arena.size = g.arena.size + 1 := by
  simp [withBlock]

theorem allocate_run (kind : BlockKind) :
    allocate kind g = .ok g.arena.size (g.withBlock kind) := rfl

theorem block?_withBlock (kind : BlockKind) (k : Nat) :
    (g.withBlock kind).block? k = if k = g.arena.size then some { kind } else g.block? k := by
  simp [withBlock, block?, Array.getElem?_push]

theorem core?_withBlock (kind : BlockKind) (k : Nat) :
    (g.withBlock kind).core? k = if k = g.arena.size then some { kind } else g.core? k := by
  simp only [core?, block?_withBlock]
  split <;> rfl

theorem Mirrored.withBlock (mirrored : g.Mirrored) (kind : BlockKind) :
    (g.withBlock kind).Mirrored := by
  have none : g.block? g.arena.size = none := by simp [block?]
  intro u v
  have edge : (g.withBlock kind).Edge u v ↔ g.Edge u v := by
    simp only [Edge, block?_withBlock]
    split
    · subst u; simp [none, OrderedSet.mem_iff]
    · rfl
  have entered : (g.withBlock kind).Entered u v ↔ g.Entered u v := by
    simp only [Entered, block?_withBlock]
    split
    · subst v; simp [none, OrderedSet.mem_iff]
    · rfl
  rw [edge, entered, mirrored u v]

/-! ## A number for a block -/

/-- The graph in which block `h` has the next number. -/
def numbered (g : Graph) (h : Nat) : Graph :=
  { g with table := g.table ++ [h] }.revise h fun b => { b with id := some g.table.length }

@[simp] theorem table_numbered : (g.numbered h).table = g.table ++ [h] := rfl

@[simp] theorem size_numbered : (g.numbered h).arena.size = g.arena.size := by
  simp [numbered]

theorem register_run (known : h < g.arena.size) :
    register h g = .ok g.table.length (g.numbered h) :=
  register_ok (block?_isSome_iff.2 known)

theorem core?_numbered (k : Nat) :
    (g.numbered h).core? k =
      if h = k then (g.core? k).map fun b => { b with id := some g.table.length }
      else g.core? k :=
  core?_revise (g := { g with table := g.table ++ [h] })
    (f := fun b => { b with id := some g.table.length }) (fun _ => rfl) k

theorem edge_numbered : (g.numbered h).Edge u v ↔ g.Edge u v :=
  edge_revise (g := { g with table := g.table ++ [h] })
    (f := fun b => { b with id := some g.table.length }) fun _ => rfl

theorem Mirrored.numbered (mirrored : g.Mirrored) : (g.numbered h).Mirrored :=
  Mirrored.revise (g := { g with table := g.table ++ [h] }) mirrored (fun _ => rfl) fun _ => rfl

end Graph

end Flowgraph
