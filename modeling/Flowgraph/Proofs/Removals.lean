import Flowgraph.Prune
import Flowgraph.Proofs.Calls
import Flowgraph.Proofs.Growth

/-!
# Taking one block out

The three ways in which pruning takes a block out of a graph: it is dropped, bypassed, or absorbed
by the block before it.  For each there is one lemma that says what the graph looks like afterwards:
what every block holds besides its predecessors, and by which blocks it is entered.
-/

namespace Flowgraph

open Edit

/-- What a block that led to `h` looks like when it goes around it. -/
def Block.detoured (y : Block) (h next : Nat) : Block :=
  ((y.retarget h next).dropSuccessor h).addSuccessor next

/-- What a block looks like that has absorbed the block `y`. -/
def Block.merged (x y : Block) : Block :=
  { x with
    lines := x.lines ++ y.lines
    successors := y.successors
    thenTarget := y.thenTarget
    elseTarget := y.elseTarget
    loopExit := y.loopExit }

namespace Graph

variable {g g' : Graph} {h k next u v : Nat} {x y : Block} {l : List Nat} {f : Block → Block}

/-- Every block of the list is what `f` makes of it. -/
def reviseAll (g : Graph) (l : List Nat) (f : Block → Block) : Graph :=
  l.foldl (fun g h => g.revise h f) g

/-- The two graphs differ in nothing but what their blocks look like. -/
structure Reworks (g g' : Graph) : Prop where
  table : g'.table = g.table
  heading : g'.heading = g.heading
  size : g'.arena.size = g.arena.size

theorem Reworks.refl (g : Graph) : g.Reworks g := ⟨rfl, rfl, rfl⟩

theorem Reworks.trans {g'' : Graph} (first : g.Reworks g') (second : g'.Reworks g'') :
    g.Reworks g'' :=
  ⟨second.table.trans first.table, second.heading.trans first.heading,
    second.size.trans first.size⟩

theorem reworks_revise (h : Nat) (f : Block → Block) : g.Reworks (g.revise h f) :=
  ⟨rfl, rfl, size_revise f⟩

theorem reworks_reviseAll (g : Graph) (l : List Nat) (f : Block → Block) :
    g.Reworks (g.reviseAll l f) := by
  induction l generalizing g with
  | nil => exact .refl g
  | cons h rest ih => exact (reworks_revise h f).trans (ih (g.revise h f))

theorem block?_reviseAll (nodup : l.Nodup) (k : Nat) :
    (g.reviseAll l f).block? k = if k ∈ l then (g.block? k).map f else g.block? k := by
  induction l generalizing g with
  | nil => simp [reviseAll]
  | cons h rest ih =>
    obtain ⟨fresh, nodup⟩ := List.nodup_cons.1 nodup
    have later := ih (g := g.revise h f) nodup
    rw [block?_revise] at later
    rw [show g.reviseAll (h :: rest) f = (g.revise h f).reviseAll rest f from rfl, later]
    by_cases same : h = k
    · subst same
      simp [fresh]
    · simp [same, Ne.symm same]

/-- A walk along a list that revises one block after the other, and looks at no others that it
revises. -/
theorem forM_revise {edit : Nat → Edit Graph Unit}
    (each : ∀ h ∈ l, ∀ g', g.Reworks g' → (∀ k, k ∉ l → g'.block? k = g.block? k) →
      edit h g' = .ok () (g'.revise h f)) : l.forM edit g = .ok () (g.reviseAll l f) := by
  have walk : ∀ rest : List Nat, (∀ h ∈ rest, h ∈ l) → ∀ g', g.Reworks g' →
      (∀ k, k ∉ l → g'.block? k = g.block? k) →
      rest.forM edit g' = .ok () (g'.reviseAll rest f) := by
    intro rest
    induction rest with
    | nil => intro _ g' _ _; rfl
    | cons h rest ih =>
      intro sub g' reworks away
      have member := sub h List.mem_cons_self
      rw [forM_cons_ok (each h member g' reworks away)]
      refine ih (fun k inside => sub k (List.mem_cons_of_mem _ inside)) _
        (reworks.trans (reworks_revise h f)) fun k other => ?_
      rw [block?_revise, if_neg fun eq : h = k => other (eq ▸ member)]
      exact away k other
  exact walk l (fun _ => id) g (.refl g) fun _ _ => rfl

/-- Revising blocks in their predecessors changes nothing else. -/
theorem core?_reviseAll_of_core (nodup : l.Nodup) (quiet : ∀ x, (f x).core = x.core) (k : Nat) :
    (g.reviseAll l f).core? k = g.core? k := by
  rw [core?, block?_reviseAll nodup]
  split
  · simp [core?, Function.comp_def, quiet]
  · rfl

theorem core?_reviseAll (nodup : l.Nodup) (commutes : ∀ x, (f x).core = f x.core) (k : Nat) :
    (g.reviseAll l f).core? k = if k ∈ l then (g.core? k).map f else g.core? k := by
  rw [core?, block?_reviseAll nodup]
  split
  · simp [core?, Function.comp_def, commutes]
  · rfl

theorem entered_reviseAll_of_predecessors (nodup : l.Nodup)
    (quiet : ∀ x, (f x).predecessors = x.predecessors) :
    (g.reviseAll l f).Entered u v ↔ g.Entered u v := by
  simp only [Entered, block?_reviseAll nodup]
  split
  · simp only [exists_map_eq_some, quiet]
  · rfl

theorem entered_reviseAll (nodup : l.Nodup) :
    (g.reviseAll l f).Entered u v ↔
      if v ∈ l then ∃ y, g.block? v = some y ∧ u ∈ (f y).predecessors else g.Entered u v := by
  simp only [Entered, block?_reviseAll nodup]
  split
  · simp only [exists_map_eq_some]
  · rfl

theorem look_run (found : g.block? h = some x) : look h g = .ok x g :=
  inspect_ok (find_eq_ok.2 found)

/-! ## Dropping -/

theorem drop_run (known : g.core? h = some x) (near : ∀ v ∈ x.successors, v < g.arena.size) :
    ∃ g', drop h g = .ok () g' ∧ g.Reworks g' ∧
      (∀ k, g'.core? k = if k = h then some x.retire else g.core? k) ∧
      ∀ u v, g'.Entered u v ↔ g.Entered u v ∧ ¬ (u = h ∧ v ∈ x.successors) := by
  obtain ⟨b, found, rfl⟩ := core?_eq_some.1 known
  have here : h < g.arena.size := core?_isSome_iff.1 (by simp [known])
  have retired : (g.revise h Block.retire).block? h = some b.retire := by
    rw [block?_revise, if_pos rfl, found]
    rfl
  have nodup := b.successors.nodup
  have erased : (b.successors.toList.forM fun next => change next (·.dropPredecessor h))
      (g.revise h Block.retire) = .ok () ((g.revise h Block.retire).reviseAll b.successors.toList
        (·.dropPredecessor h)) := by
    refine forM_revise fun next member g' reworks _ => change_run _ ?_
    rw [reworks.size, size_revise]
    exact near next member
  refine ⟨(g.revise h Block.retire).reviseAll b.successors.toList (·.dropPredecessor h), ?_,
    (reworks_revise h _).trans (reworks_reviseAll _ _ _), fun k => ?_, fun u v => ?_⟩
  · rw [drop, bind_ok (change_run _ here), bind_ok (look_run retired)]
    exact erased
  · rw [core?_reviseAll_of_core (f := (·.dropPredecessor h)) nodup fun _ => rfl,
      core?_revise (f := Block.retire) fun _ => rfl]
    by_cases same : k = h
    · subst same
      simp [known]
    · simp [same, Ne.symm same]
  -- The handle is taken out of the predecessors of the successors, and of no others.
  · have before : (g.revise h Block.retire).Entered u v ↔ g.Entered u v :=
      entered_revise fun _ => rfl
    rw [← before, entered_reviseAll nodup]
    by_cases member : v ∈ b.successors.toList
    · have member' : v ∈ b.core.successors := member
      simp only [member, member', if_true, Block.dropPredecessor, OrderedSet.mem_erase, Entered,
        and_true]
      constructor
      · rintro ⟨y, found, other, entered⟩
        exact ⟨⟨y, found, entered⟩, other⟩
      · rintro ⟨⟨y, found, entered⟩, other⟩
        exact ⟨y, found, other, entered⟩
    · have member' : v ∉ b.core.successors := member
      simp [member, member']

/-! ## Bypassing -/

/-- The graph `g'` is `g` with block `h` bypassed, which leads to `next`. -/
structure Bypassed (g : Graph) (h next : Nat) (g' : Graph) : Prop where
  reworks : g.Reworks g'
  removed : g'.core? h = (g.core? h).map Block.retire
  around : ∀ k, k ≠ h → g.Entered k h → g'.core? k = (g.core? k).map (·.detoured h next)
  away : ∀ k, k ≠ h → ¬ g.Entered k h → g'.core? k = g.core? k
  entered : ∀ u v, g'.Entered u v ↔
    if v = next then u ≠ h ∧ g.Entered u next ∨ g.Entered u h else g.Entered u v

/-- First the blocks that enter `h` are led past it. -/
theorem detours_run {b : Block} (found : g.block? h = some b) (leads : b.successors = .singleton next)
    (outside : h ∉ b.predecessors) (near : ∀ u ∈ b.predecessors, u < g.arena.size) :
    b.predecessors.toList.forM (detour h next) g =
      .ok () (g.reviseAll b.predecessors.toList (·.detoured h next)) := by
  refine forM_revise fun p member g' reworks away => ?_
  have ne : p ≠ h := fun eq => outside (eq ▸ member)
  have lt : p < g'.arena.size := by
    rw [reworks.size]
    exact near p member
  have look' := look_run (g := g'.revise p fun y => (y.retarget h next).dropSuccessor h)
    (by rw [block?_revise, if_neg ne, away h outside, found])
  rw [detour, bind_ok (change_run _ lt), bind_ok look', leads,
    change_run _ (by rwa [size_revise]), revise_revise]
  rfl

/-- Then the block behind `h` takes over its predecessors. -/
theorem adopts_run {b : Block} (found : g.block? h = some b) (other : next ≠ h)
    (stop : next < g.arena.size) :
    [next].forM (adopt h) g = .ok () (g.reviseAll [next] fun y =>
      (y.dropPredecessor h).addPredecessors b.predecessors) := by
  refine forM_revise fun s member g' reworks away => ?_
  obtain rfl := List.mem_singleton.1 member
  have lt : s < g'.arena.size := by rwa [reworks.size]
  have look' := look_run (g := g'.revise s fun y => y.dropPredecessor h)
    (by rw [block?_revise, if_neg other, away h (by simpa using Ne.symm other), found])
  rw [adopt, bind_ok (change_run _ lt), bind_ok look', change_run _ (by rwa [size_revise]),
    revise_revise]
  rfl

theorem bypass_run (known : g.core? h = some x) (leads : x.successors = .singleton next)
    (other : next ≠ h) (stop : next < g.arena.size) (loop : ¬ g.Entered h h)
    (near : ∀ u, g.Entered u h → u < g.arena.size) :
    ∃ g', bypass h g = .ok () g' ∧ Bypassed g h next g' := by
  obtain ⟨b, found, rfl⟩ := core?_eq_some.1 known
  have leads : b.successors = .singleton next := leads
  have here : h < g.arena.size := core?_isSome_iff.1 (by simp [known])
  have nodup := b.predecessors.nodup
  have entered_iff : ∀ u, g.Entered u h ↔ u ∈ b.predecessors.toList := fun u => entered_of_block found
  have outside : h ∉ b.predecessors.toList := fun member => loop ((entered_iff h).2 member)
  -- First the blocks in front are turned to the block behind, then that block takes them over.
  let g₁ := g.reviseAll b.predecessors.toList (·.detoured h next)
  have found₁ : g₁.block? h = some b := by
    rw [block?_reviseAll nodup, if_neg outside, found]
  have reworks₁ : g.Reworks g₁ := reworks_reviseAll _ _ _
  have detours : b.predecessors.toList.forM (detour h next) g = .ok () g₁ :=
    detours_run found leads outside fun u member => near u ((entered_iff u).2 member)
  let g₂ := g₁.reviseAll [next] fun y => (y.dropPredecessor h).addPredecessors b.predecessors
  have adopts : [next].forM (adopt h) g₁ = .ok () g₂ :=
    adopts_run found₁ other (by rwa [reworks₁.size])
  have reworks₂ : g₁.Reworks g₂ := reworks_reviseAll _ _ _
  have core₂ : ∀ k, g₂.core? k = g₁.core? k :=
    core?_reviseAll_of_core (by simp) fun _ => rfl
  have core₁ : ∀ k, g₁.core? k =
      if k ∈ b.predecessors.toList then (g.core? k).map (·.detoured h next) else g.core? k :=
    core?_reviseAll nodup fun _ => rfl
  have core₃ : ∀ k, (g₂.revise h Block.retire).core? k =
      if h = k then (g₂.core? k).map Block.retire else g₂.core? k := core?_revise fun _ => rfl
  refine ⟨g₂.revise h Block.retire, ?_, (reworks₁.trans reworks₂).trans (reworks_revise _ _), ?_, ?_,
    ?_, ?_⟩
  · have sole : Edit.inspect (soleSuccessor · h) g = .ok next g := by
      refine inspect_ok ?_
      rw [soleSuccessor, find_eq_ok.2 found]
      simp [leads, OrderedSet.first?, bind, Except.bind, pure, Except.pure]
    rw [bypass, bind_ok sole, bind_ok (look_run found), bind_ok detours, bind_ok (look_run found₁),
      leads, OrderedSet.toList_singleton, bind_ok adopts]
    exact change_run _ (by rwa [reworks₂.size, reworks₁.size])
  · rw [core₃, if_pos rfl, core₂, core₁, if_neg outside]
  · intro k away entered
    rw [core₃, if_neg (Ne.symm away), core₂, core₁, if_pos ((entered_iff k).1 entered)]
  · intro k away free
    rw [core₃, if_neg (Ne.symm away), core₂, core₁, if_neg fun member =>
      free ((entered_iff k).2 member)]
  -- Only the block behind has new predecessors; the steps before and after keep all of them.
  · intro u v
    have last : (g₂.revise h Block.retire).Entered u v ↔ g₂.Entered u v :=
      entered_revise fun _ => rfl
    have first : ∀ u v, g₁.Entered u v ↔ g.Entered u v := fun u v =>
      entered_reviseAll_of_predecessors nodup fun _ => rfl
    rw [last, entered_reviseAll (by simp)]
    by_cases target : v = next
    · subst target
      rw [if_pos (by simp), if_pos rfl, entered_iff, ← first u v, Entered]
      simp only [Block.addPredecessors, Block.dropPredecessor, OrderedSet.mem_union,
        OrderedSet.mem_erase]
      obtain ⟨y, found'⟩ := Option.isSome_iff_exists.1
        (block?_isSome_iff.2 (show v < g₁.arena.size by rwa [reworks₁.size]))
      simp [found', OrderedSet.mem_iff]
    · rw [if_neg (by simpa using target), if_neg target, first]

/-! ## Absorbing -/

/-- The graph `g'` is `g` with the block `next` absorbed by `h`. -/
structure Absorbed (g : Graph) (h next : Nat) (g' : Graph) : Prop where
  reworks : g.Reworks g'
  grown : ∀ x y, g.core? h = some x → g.core? next = some y → g'.core? h = some (x.merged y)
  removed : g'.core? next = (g.core? next).map Block.retire
  away : ∀ k, k ≠ h → k ≠ next → g'.core? k = g.core? k
  moved : ∀ u v, g.Edge next v → (g'.Entered u v ↔ u ≠ next ∧ g.Entered u v ∨ u = h)
  entered : ∀ u v, ¬ g.Edge next v → (g'.Entered u v ↔ g.Entered u v)

/-- While `h` takes over the edges of `next`, those to the blocks `moved` have been moved. -/
def Moving (g : Graph) (h next : Nat) (moved : List Nat) (g' : Graph) : Prop :=
  g.Reworks g' ∧ ∀ k, g'.block? k = (g.block? k).map fun b =>
    { b with
      predecessors := if k ∈ moved then (b.predecessors.erase next).insert h else b.predecessors
      successors := if k = h then moved.foldl OrderedSet.insert b.successors else b.successors }

theorem move_run {moved : List Nat} {s : Nat} (moving : Moving g h next moved g') (fresh : s ∉ moved)
    (hs : s < g.arena.size) (hh : h < g.arena.size) :
    ∃ g'', (do
        change s fun b => (b.dropPredecessor next).addPredecessor h
        change h (·.addSuccessor s) : Edit Graph Unit) g' = .ok () g'' ∧
      Moving g h next (moved ++ [s]) g'' := by
  obtain ⟨reworks, blocks⟩ := moving
  have run₁ := change_run (g := g') (h := s)
    (fun b => (b.dropPredecessor next).addPredecessor h) (by rwa [reworks.size])
  have run₂ := change_run (g := g'.revise s fun b => (b.dropPredecessor next).addPredecessor h)
    (h := h) (·.addSuccessor s) (by rwa [size_revise, reworks.size])
  refine ⟨_, (bind_ok run₁).trans run₂, (reworks.trans (reworks_revise _ _)).trans
    (reworks_revise _ _), fun k => ?_⟩
  -- The block that moves and the one that takes it over may be the same one.
  simp only [block?_revise, blocks]
  cases g.block? k with
  | none => simp
  | some b =>
    by_cases source : h = k
    · subst source
      by_cases target : s = h
      · subst target
        simp [fresh, Block.addSuccessor, Block.addPredecessor, Block.dropPredecessor]
      · simp [target, Ne.symm target, Block.addSuccessor, List.mem_append]
    · by_cases target : s = k
      · subst target
        simp [fresh, source, Ne.symm source, Block.addPredecessor, Block.dropPredecessor]
      · simp [source, Ne.symm source, target, Ne.symm target, List.mem_append]

theorem moves_run (h next : Nat) {l : List Nat} (nodup : l.Nodup) (near : ∀ s ∈ l, s < g.arena.size)
    (hh : h < g.arena.size) :
    ∃ g', (l.forM fun s => do
        change s fun b => (b.dropPredecessor next).addPredecessor h
        change h (·.addSuccessor s) : Edit Graph Unit) g = .ok () g' ∧ Moving g h next l g' := by
  obtain ⟨g', run, moved, order, moving⟩ := forM_run (f := fun s => do
      change s fun b => (b.dropPredecessor next).addPredecessor h
      change h (·.addSuccessor s))
    (motive := fun rest g' => ∃ moved, l = moved ++ rest ∧ Moving g h next moved g')
    (fun s rest g' ⟨moved, order, moving⟩ => by
      have member : s ∈ l := by simp [order]
      rw [order, List.nodup_append] at nodup
      obtain ⟨g'', run, moving'⟩ := move_run moving
        (fun inside => nodup.2.2 s inside s List.mem_cons_self rfl) (near s member) hh
      exact ⟨g'', run, moved ++ [s], by simp [order], moving'⟩)
    (l := l) (s := g) ⟨[], rfl, .refl g, fun k => by simp⟩
  obtain rfl : l = moved := by simpa using order
  exact ⟨g', run, moving⟩

theorem entered_iff_predecessors :
    g.Entered u v ↔ ∃ s, (g.block? v).map Block.predecessors = some s ∧ u ∈ s := by
  rw [Entered, exists_map_eq_some]

theorem absorb_run (known : g.core? h = some x) (only : x.successors.toList = [next])
    (known' : g.core? next = some y) (other : next ≠ h)
    (near : ∀ v ∈ y.successors, v < g.arena.size) :
    ∃ g', absorb h next g = .ok () g' ∧ Absorbed g h next g' := by
  obtain ⟨b, found, rfl⟩ := core?_eq_some.1 known
  obtain ⟨c, found', rfl⟩ := core?_eq_some.1 known'
  have hh : h < g.arena.size := core?_isSome_iff.1 (by simp [known])
  have hn : next < g.arena.size := core?_isSome_iff.1 (by simp [known'])
  have only : b.successors.toList = [next] := only
  -- The four parts of the program: the text, the successors, the targets, and the block that goes.
  let g₁ := g.revise h fun b => (b.addLines c.lines).dropSuccessor next
  have reworks₁ : g.Reworks g₁ := reworks_revise _ _
  obtain ⟨g₂, run₂, reworks₂, blocks₂⟩ := moves_run (g := g₁) h next c.successors.nodup
    (fun s member => by rw [reworks₁.size]; exact near s member) (by rwa [reworks₁.size])
  have run₃ := change_run (g := g₂) (h := h) (·.withTargetsOf c) (by rwa [reworks₂.size, reworks₁.size])
  have run₄ := change_run (g := g₂.revise h (·.withTargetsOf c)) (h := next) Block.retire
    (by rwa [size_revise, reworks₂.size, reworks₁.size])
  let g' := (g₂.revise h (·.withTargetsOf c)).revise next Block.retire
  have run : absorb h next g = .ok () g' := by
    rw [absorb, bind_ok (look_run found'), bind_ok (change_run _ hh), bind_ok run₂, bind_ok run₃, run₄]
  have blocks' : ∀ k, g'.block? k = if next = k then (g₂.block? k).map Block.retire else
      if h = k then (g₂.block? k).map (·.withTargetsOf c) else g₂.block? k := by
    intro k
    simp only [g', block?_revise]
    by_cases same : next = k
    · subst same
      simp [Ne.symm other]
    · simp [same]
  have blocks₁ : ∀ k, g₁.block? k = if h = k then (g.block? k).map fun b =>
      (b.addLines c.lines).dropSuccessor next else g.block? k := block?_revise _
  have all : c.successors.toList.foldl OrderedSet.insert (b.successors.erase next) = c.successors := by
    have none : b.successors.erase next = ∅ := OrderedSet.ext (by simp [only])
    rw [none, OrderedSet.foldl_insert_empty]
  have edge : ∀ v, g.Edge next v ↔ v ∈ c.successors.toList := fun v => edge_of_block found'
  -- Among the predecessors, the absorbed block is replaced by the one that absorbs it.
  have predecessors : ∀ v, (g'.block? v).map Block.predecessors =
      if v ∈ c.successors.toList then
        (g.block? v).map fun z => (z.predecessors.erase next).insert h
      else (g.block? v).map Block.predecessors := by
    intro v
    simp only [blocks', blocks₂, blocks₁]
    cases g.block? v with
    | none => simp
    | some z =>
      by_cases last : next = v <;> by_cases first : h = v <;>
        by_cases member : v ∈ c.successors.toList <;>
        simp [last, first, member, Block.retire, Block.withTargetsOf, Block.addLines,
          Block.dropSuccessor]
  refine ⟨g', run, ((reworks₁.trans reworks₂).trans (reworks_revise _ _)).trans (reworks_revise _ _),
    ?_, ?_, ?_, ?_, ?_⟩
  · intro x y hx hy
    cases known.symm.trans hx
    cases known'.symm.trans hy
    simp [core?, blocks', blocks₂, blocks₁, found, other, Block.core, Block.merged,
      Block.withTargetsOf, Block.addLines, Block.dropSuccessor, all]
  · simp [core?, blocks', blocks₂, blocks₁, found', other, Ne.symm other, Block.core, Block.retire]
  · intro k away away'
    simp [core?, blocks', blocks₂, blocks₁, Ne.symm away, away, Ne.symm away', Function.comp_def,
      Block.core]
    rfl
  · intro u v target
    have bound := near v ((edge v).1 target)
    obtain ⟨z, found⟩ := Option.isSome_iff_exists.1 (block?_isSome_iff.2 bound)
    have moved := predecessors v
    rw [found, if_pos ((edge v).1 target)] at moved
    simp [entered_iff_predecessors, moved, found, and_comm]
  · intro u v target
    rw [entered_iff_predecessors, entered_iff_predecessors, predecessors,
      if_neg fun member => target ((edge v).2 member)]

end Graph

end Flowgraph
