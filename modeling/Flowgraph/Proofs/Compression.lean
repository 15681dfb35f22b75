import Flowgraph.Proofs.WellFormed
import Mathlib.Data.Set.Card
import Mathlib.Tactic.IntervalCases

/-!
# Eliding is path compression

The second pass on its own, on graphs of any shape: nothing is asked of how the graph was grown, and
the blocks without text may lie in chains and in diamonds, between loops and at their ends.  Each of
them goes to one other block, so from every place on there is one first block that is not bypassed,
the place that `Chases` leads to.  Afterwards every edge and every target leads there at once.

One step of the pass bypasses one block and changes what is in front of the others.  What carries the
induction is that a step moves every edge along `past h next` and that chasing sees no difference
between a place and the place past it.  The order of the steps does not matter for it.
-/

namespace Flowgraph

open Edit Relation

namespace Block

variable {h next t : Nat} {x : Block}

/-- One of the targets of the block is `t`. -/
def Targets (x : Block) (t : Nat) : Prop :=
  x.thenTarget = some t ∨ x.elseTarget = some t ∨ x.loopExit = some t

/-- The targets of `y` are those of `x`, each at the place that `f` gives it. -/
structure Retargeted (f : Nat → Nat) (x y : Block) : Prop where
  thenTarget : y.thenTarget = x.thenTarget.map f
  elseTarget : y.elseTarget = x.elseTarget.map f
  loopExit : y.loopExit = x.loopExit.map f

theorem Retargeted.targets {f : Nat → Nat} {y : Block} (same : Retargeted f x y)
    (target : y.Targets t) : ∃ s, x.Targets s ∧ f s = t := by
  simp only [Targets, same.thenTarget, same.elseTarget, same.loopExit, Option.map_eq_some_iff]
    at target ⊢
  obtain ⟨s, is, eq⟩ | ⟨s, is, eq⟩ | ⟨s, is, eq⟩ := target
  · exact ⟨s, .inl is, eq⟩
  · exact ⟨s, .inr (.inl is), eq⟩
  · exact ⟨s, .inr (.inr is), eq⟩

theorem Retargeted.trans {f f' : Nat → Nat} {y z : Block} (first : Retargeted f x y)
    (second : Retargeted f' y z) : Retargeted (f' ∘ f) x z where
  thenTarget := by rw [second.thenTarget, first.thenTarget, Option.map_map]
  elseTarget := by rw [second.elseTarget, first.elseTarget, Option.map_map]
  loopExit := by rw [second.loopExit, first.loopExit, Option.map_map]

/-- What two blocks hold besides their predecessors differs in their successors at most. -/
theorem eq_of_core {y : Block} (kind : y.core.kind = x.core.kind) (id : y.core.id = x.core.id)
    (lines : y.core.lines = x.core.lines) (full : y.core.sealed = x.core.sealed)
    (thenTarget : y.core.thenTarget = x.core.thenTarget)
    (elseTarget : y.core.elseTarget = x.core.elseTarget)
    (loopExit : y.core.loopExit = x.core.loopExit) :
    y.core = { x.core with successors := y.core.successors } := by
  cases x
  cases y
  simp_all [core]

theorem follow_eq_map (target : Option Nat) :
    (if target = some h then some next else target) = target.map (past h next) := by
  cases target with
  | none => rfl
  | some t => by_cases same : t = h <;> simp [past, same]

theorem map_past_of_away {target : Option Nat} (away : ∀ t, target = some t → t ≠ h) :
    target.map (past h next) = target := by
  cases target with
  | none => rfl
  | some t => exact congrArg some (past_of_ne (away t rfl))

/-- The targets of a block go past a bypassed block with its edges. -/
theorem retargeted_bypassing (inside : ∀ t, x.Targets t → t ∈ x.successors) :
    Retargeted (past h next) x (x.bypassing h next) := by
  by_cases member : h ∈ x.successors
  · rw [bypassing_of_mem member]
    exact ⟨follow_eq_map _, follow_eq_map _, follow_eq_map _⟩
  · have away : ∀ t, x.Targets t → t ≠ h := by
      rintro t target rfl
      exact member (inside t target)
    rw [bypassing_of_not_mem member]
    exact ⟨(map_past_of_away fun t is => away t (.inl is)).symm,
      (map_past_of_away fun t is => away t (.inr (.inl is))).symm,
      (map_past_of_away fun t is => away t (.inr (.inr is))).symm⟩

end Block

namespace Graph

variable {g g' g₁ : Graph} {h k next s t t' u v : Nat} {x y : Block} {chase chase' : Nat → Nat}

/-- Block `h` is a live body block without text. -/
def Vacant (g : Graph) (h : Nat) : Prop :=
  ∃ x, g.live? h = some x ∧ x.kind = .body ∧ x.lines = []

/-- The edge from `u` to `v` leaves a block without text. -/
def Yields (g : Graph) (u v : Nat) : Prop := g.Vacant u ∧ g.Flow u v

/-- From `s` on, the first block that is not a body block without text is `t`. -/
inductive Chases (g : Graph) : Nat → Nat → Prop where
  | stop {s : Nat} (solid : ¬ g.Vacant s) : Chases g s s
  | step {s next t : Nat} (yields : g.Yields s next) (rest : Chases g next t) : Chases g s t

/-- What the second pass needs: the table lists the body blocks, edges are kept at both ends, blocks
without text have one way to go and do not go round, and targets are reached by edges. -/
structure Compressible (g : Graph) : Prop where
  nodup : g.table.Nodup
  bodies : ∀ h ∈ g.table, g.Body h
  listed : ∀ h x, g.live? h = some x → x.kind = .body → h ∈ g.table
  linked : g.Linked
  sole : ∀ h x, g.live? h = some x → x.kind = .body → x.lines = [] → x.successors.size = 1
  acyclic : ∀ h, ¬ TransGen g.Yields h h
  targets : ∀ h x t, g.live? h = some x → x.Targets t → t ∈ x.successors

/-- The graph `g'` is what is left of `g` when every edge and every target leads to the place that
`chase` gives it. -/
structure Compressed (g : Graph) (chase : Nat → Nat) (g' : Graph) : Prop where
  reworks : g.Reworks g'
  kept : ∀ h x, g.core? h = some x → ∃ y, g'.core? h = some y ∧ y.kind = x.kind ∧
    y.lines = x.lines ∧ y.sealed = x.sealed ∧ (g.Vacant h → y.id = none) ∧
    (¬ g.Vacant h → y.id = x.id)
  remains : ∀ h, (g'.live? h).isSome ↔ (g.live? h).isSome ∧ ¬ g.Vacant h
  leads : ∀ h x y, g.live? h = some x → g'.live? h = some y →
    ∀ v, v ∈ y.successors ↔ ∃ s ∈ x.successors, v = chase s
  targets : ∀ h x y, g.live? h = some x → g'.live? h = some y → x.Retargeted chase y
  linked : g'.Linked

/-- The live blocks of the two graphs are alike, but for the order in their sets. -/
structure SameUpToOrder (g g' : Graph) : Prop where
  live : ∀ h, (g.live? h).isSome ↔ (g'.live? h).isSome
  blocks : ∀ h x y, g.live? h = some x → g'.live? h = some y →
    y = { x with successors := y.successors } ∧ ∀ v, v ∈ y.successors ↔ v ∈ x.successors
  entered : ∀ u v, (g.live? v).isSome → (g.Entered u v ↔ g'.Entered u v)

theorem Vacant.body (vacant : g.Vacant h) : g.Body h := by
  obtain ⟨x, known, body, -⟩ := vacant
  exact body_iff_core.2 ⟨x, (live?_eq_some.1 known).1, body⟩

theorem Vacant.alive (vacant : g.Vacant h) : (g.live? h).isSome := by
  obtain ⟨x, known, -⟩ := vacant
  simp [known]

/-- The vacant block `h` was bypassed, which goes to `next`. -/
structure Clears (g : Graph) (h next : Nat) (g' : Graph) : Prop where
  vacant : g.Vacant h
  leads : ∀ v, g.Flow h v ↔ v = next
  other : next ≠ h
  bypassed : Bypassed g h next g'

namespace Compressible

variable (compressible : g.Compressible)

include compressible

/-- The blocks that the pass bypasses are the vacant ones. -/
theorem mem_hollow_iff : h ∈ g.hollow ↔ g.Vacant h := by
  rw [mem_hollow]
  constructor
  · rintro ⟨member, x, known, empty⟩
    obtain ⟨y, found, body⟩ := body_iff_core.1 (compressible.bodies h member)
    cases (live?_eq_some.1 known).1.symm.trans found
    exact ⟨x, known, body, empty⟩
  · rintro ⟨x, known, body, empty⟩
    exact ⟨compressible.listed h x known body, x, known, empty⟩

/-- A vacant block has one way to go, which leads to another block. -/
theorem leads (vacant : g.Vacant h) :
    ∃ x next, g.live? h = some x ∧ x.successors = .singleton next ∧ (∀ v, g.Flow h v ↔ v = next) ∧
      next ≠ h := by
  obtain ⟨x, known, body, empty⟩ := id vacant
  obtain ⟨next, only⟩ := List.length_eq_one_iff.1 (compressible.sole h x known body empty)
  have successors : x.successors = .singleton next := OrderedSet.ext only
  have flow : ∀ v, g.Flow h v ↔ v = next := fun v => by
    simp [Flow, known, successors]
  refine ⟨x, next, known, successors, flow, ?_⟩
  rintro rfl
  exact compressible.acyclic next (.single ⟨vacant, (flow next).2 rfl⟩)

/-- A vacant block can be bypassed. -/
theorem clears (vacant : g.Vacant h) :
    ∃ next g', bypass h g = .ok () g' ∧ Clears g h next g' := by
  obtain ⟨x, next, known, successors, flow, other⟩ := compressible.leads vacant
  obtain ⟨y, known'⟩ := Option.isSome_iff_exists.1
    (compressible.linked.flow h next ((flow next).2 rfl)).2
  have loop : ¬ g.Entered h h := fun entered =>
    other ((flow h).1 (compressible.linked.entered h h vacant.alive entered)).symm
  have near : ∀ u, g.Entered u h → u < g.arena.size := fun u entered => by
    obtain ⟨z, found, -⟩ := compressible.linked.entered u h vacant.alive entered
    exact live_lt found
  obtain ⟨g', run, bypassed⟩ := bypass_run (live?_eq_some.1 known).1 successors other
    (live_lt known') loop near
  exact ⟨next, g', run, vacant, flow, other, bypassed⟩

/-- There is one place to chase to. -/
theorem chases_unique (chases : g.Chases s t) (chases' : g.Chases s t') : t = t' := by
  induction chases with
  | stop solid =>
    cases chases' with
    | stop => rfl
    | step yields => exact absurd yields.1 solid
  | @step s next t yields _ ih =>
    cases chases' with
    | stop solid => exact absurd yields.1 solid
    | @step _ next' _ yields' rest' =>
      obtain ⟨-, _, -, -, only, -⟩ := compressible.leads yields.1
      obtain rfl := ((only next').1 yields'.2).trans ((only next).1 yields.2).symm
      exact ih rest'

end Compressible

/-- Along edges that leave blocks without text, numbers grow. -/
theorem Rises.yields (rises : g.Rises) {i j : Nat} (way : TransGen g.Yields u v)
    (known : g.live? u = some x) (id : x.id = some i) (known' : g.live? v = some y)
    (body : y.kind = .body) (empty : y.lines = []) (id' : y.id = some j) : i < j := by
  induction way generalizing y j with
  | @single v yields =>
    obtain ⟨⟨z, found, -, empty'⟩, z', found', member⟩ := yields
    cases known.symm.trans found
    cases known.symm.trans found'
    exact rises u v x y i j known empty' id member known' empty id'
  | @tail w v _ yields ih =>
    obtain ⟨⟨z, found, body', empty'⟩, z', found', member⟩ := yields
    cases found.symm.trans found'
    obtain ⟨m, number⟩ := Block.id_of_alive (live?_eq_some.1 found).2 body'
    have before := ih found body' empty' number
    have after := rises w v z y m j found empty' number member known' empty id'
    omega

/-- What the first pass leaves of a grown graph can be compressed. -/
theorem Elidable.compressible (elidable : g.Elidable) : g.Compressible where
  nodup := elidable.tidy.nodup
  bodies h member := by
    obtain ⟨high, lt⟩ := elidable.tidy.inside h member
    obtain ⟨x, known⟩ := Option.isSome_iff_exists.1 (core?_isSome_iff.2 lt)
    exact body_iff_core.2 ⟨x, known, (elidable.tidy.kinds h x known).trans
      (BlockKind.ofHandle_eq_body.2 high)⟩
  listed h x known body := elidable.tidy.mem_table known body
  linked := elidable.tidy.linked
  sole h x known body empty := by
    obtain ⟨next, ends, -⟩ := elidable.tidy.goes_of_empty elidable.rises known body empty
    cases ends with
    | goes successors =>
      rw [successors]
      rfl
  acyclic h round := by
    obtain ⟨_, ⟨⟨x, known, body, empty⟩, -⟩, -⟩ := TransGen.head'_iff.1 round
    obtain ⟨i, id⟩ := Block.id_of_alive (live?_eq_some.1 known).2 body
    exact Nat.lt_irrefl i (elidable.rises.yields round known id known body empty id)
  targets h x t known target := by
    by_cases stop : h = exit
    · subst stop
      cases known.symm.trans elidable.tidy.exit
      simp [Block.Targets] at target
    · obtain ⟨e, ends, -⟩ := elidable.tidy.ends_of_live known stop
      exact mem_successors_of_target ends target

/-! ## One step -/

namespace Clears

variable (compressible : g.Compressible) (clears : Clears g h next g')

include clears

theorem yields : g.Yields h next := ⟨clears.vacant, (clears.leads next).2 rfl⟩

include compressible

theorem live_other (away : k ≠ h) : g'.live? k = (g.live? k).map (·.bypassing h next) :=
  clears.bypassed.live_other compressible.linked clears.vacant.alive away

theorem live_inv (found : g'.live? k = some y) :
    k ≠ h ∧ ∃ z, g.live? k = some z ∧ y = z.bypassing h next :=
  clears.bypassed.live_inv compressible.linked clears.vacant.body clears.leads found

theorem isSome_iff : (g'.live? k).isSome ↔ k ≠ h ∧ (g.live? k).isSome :=
  clears.bypassed.isSome_iff compressible.linked clears.vacant.body clears.leads

theorem flow_iff : g'.Flow u v ↔ u ≠ h ∧ ∃ w, g.Flow u w ∧ v = past h next w :=
  clears.bypassed.flow_iff compressible.linked clears.vacant.body clears.leads clears.other

/-- The other vacant blocks stay vacant, and none is added. -/
theorem vacant_iff : g'.Vacant k ↔ k ≠ h ∧ g.Vacant k := by
  constructor
  · rintro ⟨y, found, body, empty⟩
    obtain ⟨away, z, found', rfl⟩ := clears.live_inv compressible found
    exact ⟨away, z, found', by simpa using body, by simpa using empty⟩
  · rintro ⟨away, x, known, body, empty⟩
    refine ⟨x.bypassing h next, ?_, by simpa using body, by simpa using empty⟩
    rw [clears.live_other compressible away, known]
    rfl

/-- An edge that yields was one before, or two that met in the bypassed block. -/
theorem yields_inv (yields : g'.Yields u v) : TransGen g.Yields u v := by
  obtain ⟨-, vacant⟩ := (clears.vacant_iff compressible).1 yields.1
  obtain ⟨-, w, flow, rfl⟩ := (clears.flow_iff compressible).1 yields.2
  by_cases same : w = h
  · subst same
    rw [past_self]
    exact .tail (.single ⟨vacant, flow⟩) clears.yields
  · rw [past_of_ne same]
    exact .single ⟨vacant, flow⟩

/-- What the pass needs holds again after every step. -/
theorem keeps_compressible : g'.Compressible where
  nodup := clears.bypassed.reworks.table ▸ compressible.nodup
  bodies k member := by
    obtain ⟨x, known, body⟩ :=
      body_iff_core.1 (compressible.bodies k (clears.bypassed.reworks.table ▸ member))
    obtain ⟨y, found, kind, -⟩ := clears.bypassed.core_kept known
    exact body_iff_core.2 ⟨y, found, kind.trans body⟩
  listed k y found body := by
    obtain ⟨-, z, found', rfl⟩ := clears.live_inv compressible found
    rw [Block.kind_bypassing] at body
    exact clears.bypassed.reworks.table ▸ compressible.listed k z found' body
  linked := clears.bypassed.keeps_linked compressible.linked clears.vacant.body clears.leads
    clears.other
  sole k y found body empty := by
    obtain ⟨-, z, found', rfl⟩ := clears.live_inv compressible found
    rw [Block.kind_bypassing] at body
    rw [Block.lines_bypassing] at empty
    obtain ⟨w, only⟩ := List.length_eq_one_iff.1 (compressible.sole k z found' body empty)
    have singleton : (z.bypassing h next).successors = .singleton (past h next w) := by
      refine OrderedSet.eq_singleton fun v => ?_
      rw [Block.mem_bypassing clears.other]
      simp [OrderedSet.mem_iff, only]
    rw [singleton]
    rfl
  acyclic k round :=
    compressible.acyclic k (TransGen.closed (fun _ _ => clears.yields_inv compressible) _ _ round)
  targets k y t found target := by
    obtain ⟨-, z, found', rfl⟩ := clears.live_inv compressible found
    have inside := compressible.targets k z
    obtain ⟨s, target', rfl⟩ :=
      (Block.retargeted_bypassing fun t is => inside t found' is).targets target
    exact (Block.mem_bypassing clears.other).2 ⟨s, inside s found' target', rfl⟩

/-- What is chased from a place that is left.  Where the next place is the one past the bypassed block,
the step of that block comes in between. -/
theorem chases_away (chases : g'.Chases s t) (away : s ≠ h) : g.Chases s t := by
  induction chases with
  | stop solid => exact .stop fun vacant => solid ((clears.vacant_iff compressible).2 ⟨away, vacant⟩)
  | @step s next' t yields _ ih =>
    obtain ⟨-, vacant⟩ := (clears.vacant_iff compressible).1 yields.1
    obtain ⟨-, w, flow, rfl⟩ := (clears.flow_iff compressible).1 yields.2
    by_cases same : w = h
    · subst same
      rw [past_self] at ih
      exact .step ⟨vacant, flow⟩ (.step clears.yields (ih clears.other))
    · rw [past_of_ne same] at ih
      exact .step ⟨vacant, flow⟩ (ih same)

/-- To chase from the place past the bypassed block is to chase from the place itself. -/
theorem chases_past (chases : g'.Chases (past h next s) t) : g.Chases s t := by
  by_cases same : s = h
  · subst same
    rw [past_self] at chases
    exact .step clears.yields (clears.chases_away compressible chases clears.other)
  · rw [past_of_ne same] at chases
    exact clears.chases_away compressible chases same

/-- What is left after the rest of the pass is what is left after all of it. -/
theorem compressed (compressed : g'.Compressed chase g₁) : g.Compressed (chase ∘ past h next) g₁ where
  reworks := clears.bypassed.reworks.trans compressed.reworks
  kept k x known := by
    obtain ⟨y, found, kind, lines, full, id⟩ := clears.bypassed.core_kept known
    obtain ⟨z, found', kind', lines', full', removed, stays⟩ := compressed.kept k y found
    refine ⟨z, found', kind'.trans kind, lines'.trans lines, full'.trans full, fun vacant => ?_,
      fun solid => ?_⟩
    · by_cases same : k = h
      · -- It has lost its number already, and no later step gives it one.
        have gone : ¬ g'.Vacant k := fun vacant => ((clears.vacant_iff compressible).1 vacant).1 same
        rw [stays gone, id, if_pos same]
      · exact removed ((clears.vacant_iff compressible).2 ⟨same, vacant⟩)
    · have away : k ≠ h := fun same => solid (same ▸ clears.vacant)
      rw [stays fun vacant => solid ((clears.vacant_iff compressible).1 vacant).2, id, if_neg away]
  remains k := by
    rw [compressed.remains, clears.isSome_iff compressible, clears.vacant_iff compressible]
    constructor
    · rintro ⟨⟨away, alive⟩, solid⟩
      exact ⟨alive, fun vacant => solid ⟨away, vacant⟩⟩
    · rintro ⟨alive, solid⟩
      exact ⟨⟨fun same => solid (same ▸ clears.vacant), alive⟩, fun vacant => solid vacant.2⟩
  leads k x z known found v := by
    have remains := (compressed.remains k).1 (by simp [found])
    obtain ⟨away, -⟩ := (clears.isSome_iff compressible).1 remains.1
    have known' := clears.live_other compressible away
    rw [known] at known'
    rw [compressed.leads k _ z known' found]
    constructor
    · rintro ⟨s, member, rfl⟩
      obtain ⟨w, member', rfl⟩ := (Block.mem_bypassing clears.other).1 member
      exact ⟨w, member', rfl⟩
    · rintro ⟨w, member, rfl⟩
      exact ⟨_, (Block.mem_bypassing clears.other).2 ⟨w, member, rfl⟩, rfl⟩
  targets k x z known found := by
    have remains := (compressed.remains k).1 (by simp [found])
    obtain ⟨away, -⟩ := (clears.isSome_iff compressible).1 remains.1
    have known' := clears.live_other compressible away
    rw [known] at known'
    have inside := compressible.targets k x
    exact (Block.retargeted_bypassing fun t => inside t known).trans
      (compressed.targets k _ z known' found)
  linked := compressed.linked

end Clears

/-! ## The whole pass -/

/-- A graph without vacant blocks is compressed already. -/
theorem Linked.compressed (linked : g.Linked) (solid : ∀ h, ¬ g.Vacant h) : g.Compressed id g where
  reworks := .refl g
  kept h x known := ⟨x, known, rfl, rfl, rfl, fun vacant => absurd vacant (solid h), fun _ => rfl⟩
  remains h := ⟨fun alive => ⟨alive, solid h⟩, And.left⟩
  leads h x y known found v := by
    cases known.symm.trans found
    simp
  targets h x y known found := by
    cases known.symm.trans found
    exact ⟨by simp, by simp, by simp⟩
  linked := linked

/-- The vacant blocks are bypassed in any order. -/
theorem Compressible.bypasses_run {hs : List Nat} (compressible : g.Compressible) (nodup : hs.Nodup)
    (all : ∀ h, h ∈ hs ↔ g.Vacant h) :
    ∃ g' chase, hs.forM bypass g = .ok () g' ∧ (∀ s, g.Chases s (chase s)) ∧
      g.Compressed chase g' := by
  induction hs generalizing g with
  | nil =>
    have solid : ∀ h, ¬ g.Vacant h := fun h vacant => by simpa using (all h).2 vacant
    exact ⟨g, id, rfl, fun s => .stop (solid s), compressible.linked.compressed solid⟩
  | cons h rest ih =>
    obtain ⟨fresh, nodup⟩ := List.nodup_cons.1 nodup
    obtain ⟨next, g₁, run, clears⟩ := compressible.clears ((all h).1 List.mem_cons_self)
    obtain ⟨g', chase, run', chases, compressed⟩ :=
      ih (clears.keeps_compressible compressible) nodup fun k => by
        rw [clears.vacant_iff compressible, ← all k, List.mem_cons]
        constructor
        · intro member
          exact ⟨fun same => fresh (same ▸ member), .inr member⟩
        · rintro ⟨away, same | member⟩
          · exact absurd same away
          · exact member
    refine ⟨g', chase ∘ past h next, (forM_cons_ok run).trans run', fun s => ?_,
      clears.compressed compressible compressed⟩
    exact clears.chases_past compressible (chases _)

/-- The pass ends well, having taken away the numbers of the vacant blocks. -/
theorem Compressible.elideEmpty_run (compressible : g.Compressible) :
    ∃ g' chase, elideEmpty g = .ok {h | g.Vacant h}.ncard g' ∧ (∀ s, g.Chases s (chase s)) ∧
      g.Compressed chase g' := by
  have nodup : g.hollow.Nodup := (compressible.nodup.filter _).filter _
  have all : ∀ h, h ∈ g.hollow ↔ g.Vacant h := fun _ => compressible.mem_hollow_iff
  have bounded : ∀ h ∈ g.table, h < g.arena.size := fun h member => by
    obtain ⟨x, known, -⟩ := body_iff_core.1 (compressible.bodies h member)
    exact core?_isSome_iff.1 (by simp [known])
  -- the pass lists every vacant block once, so the length of its list counts them
  have count : {h | g.Vacant h}.ncard = g.hollow.length := by
    have same : {h | g.Vacant h} = ↑g.hollow.toFinset := by
      ext h
      simp [all]
    rw [same, Set.ncard_coe_finset, List.toFinset_card_of_nodup nodup]
  obtain ⟨g', chase, run, chases, compressed⟩ := compressible.bypasses_run nodup all
  exact ⟨g', chase, count ▸ elideEmpty_ok bounded run, chases, compressed⟩

/-- Nothing of what the pass needs depends on the order of the table. -/
theorem Compressible.permute {table : List Nat} (compressible : g.Compressible)
    (perm : table.Perm g.table) : ({ g with table } : Graph).Compressible where
  nodup := perm.nodup_iff.2 compressible.nodup
  bodies h member := compressible.bodies h (perm.mem_iff.1 member)
  listed h x known body := perm.mem_iff.2 (compressible.listed h x known body)
  linked := ⟨compressible.linked.flow, compressible.linked.entered⟩
  sole := compressible.sole
  acyclic := compressible.acyclic
  targets := compressible.targets

theorem chases_permute {table : List Nat} (chases : g.Chases s t) :
    ({ g with table } : Graph).Chases s t := by
  induction chases with
  | stop solid => exact .stop solid
  | step yields _ ih => exact .step yields ih

/-- What the pass leaves is fixed, up to the order in the sets, by the blocks that it starts from. -/
theorem Compressed.sameUpToOrder {table : List Nat} (first : g.Compressed chase g')
    (second : ({ g with table } : Graph).Compressed chase g₁) : g'.SameUpToOrder g₁ := by
  have live : ∀ h, (g'.live? h).isSome ↔ (g₁.live? h).isSome := fun h =>
    (first.remains h).trans (second.remains h).symm
  have blocks : ∀ h x y, g'.live? h = some x → g₁.live? h = some y →
      y = { x with successors := y.successors } ∧ ∀ v, v ∈ y.successors ↔ v ∈ x.successors := by
    intro h x y found found'
    obtain ⟨alive, solid⟩ := (first.remains h).1 (by simp [found])
    obtain ⟨z, known⟩ := Option.isSome_iff_exists.1 alive
    obtain ⟨x', core, kind, lines, full, -, id⟩ := first.kept h z (live?_eq_some.1 known).1
    obtain ⟨y', core', kind', lines', full', -, id'⟩ := second.kept h z (live?_eq_some.1 known).1
    cases core.symm.trans (live?_eq_some.1 found).1
    cases core'.symm.trans (live?_eq_some.1 found').1
    have targets := first.targets h z x known found
    have targets' := second.targets h z y known found'
    obtain ⟨b, -, rfl⟩ := core?_eq_some.1 core
    obtain ⟨c, -, rfl⟩ := core?_eq_some.1 core'
    refine ⟨?_, fun v =>
      (second.leads h z _ known found' v).trans (first.leads h z _ known found v).symm⟩
    apply Block.eq_of_core
    · exact kind'.trans kind.symm
    · exact (id' solid).trans (id solid).symm
    · exact lines'.trans lines.symm
    · exact full'.trans full.symm
    · exact targets'.thenTarget.trans targets.thenTarget.symm
    · exact targets'.elseTarget.trans targets.elseTarget.symm
    · exact targets'.loopExit.trans targets.loopExit.symm
  refine ⟨live, blocks, fun u v alive => ?_⟩
  -- The predecessors of a live block are the live blocks that lead to it.
  have flow : g'.Flow u v ↔ g₁.Flow u v := by
    constructor
    · rintro ⟨x, found, member⟩
      obtain ⟨y, found'⟩ := Option.isSome_iff_exists.1 ((live u).1 (by simp [found]))
      exact ⟨y, found', ((blocks u x y found found').2 v).2 member⟩
    · rintro ⟨y, found', member⟩
      obtain ⟨x, found⟩ := Option.isSome_iff_exists.1 ((live u).2 (by simp [found']))
      exact ⟨x, found, ((blocks u x y found found').2 v).1 member⟩
  constructor
  · intro entered
    exact (second.linked.flow u v (flow.1 (first.linked.entered u v alive entered))).1
  · intro entered
    exact (first.linked.flow u v
      (flow.2 (second.linked.entered u v ((live v).1 alive) entered))).1

/-- **The second pass compresses paths.**  From every place on there is one place to chase to.  The
pass ends well and answers how many blocks without text it has found; these lose their numbers, and
every edge and every target of a block that is left leads to where its old place chases to.  With the
table in another order the same is left, up to the order in the sets. -/
theorem elideEmpty_compresses (compressible : g.Compressible) :
    ∃ chase : Nat → Nat, (∀ s t, g.Chases s t ↔ t = chase s) ∧
      ∃ g', elideEmpty g = .ok {h | g.Vacant h}.ncard g' ∧ g.Compressed chase g' ∧
        ∀ table : List Nat, table.Perm g.table →
          ∃ g'', elideEmpty { g with table } = .ok {h | g.Vacant h}.ncard g'' ∧
            g'.SameUpToOrder g'' := by
  obtain ⟨g', chase, run, chases, compressed⟩ := compressible.elideEmpty_run
  refine ⟨chase, fun s t => ⟨fun there => ?_, fun eq => eq ▸ chases s⟩, g', run, compressed,
    fun table perm => ?_⟩
  · exact compressible.chases_unique there (chases s)
  · have compressible' := compressible.permute perm
    obtain ⟨g'', chase', run', chases', compressed'⟩ := compressible'.elideEmpty_run
    have same : chase' = chase := by
      funext s
      have there : ({ g with table } : Graph).Chases s (chase s) := chases_permute (chases s)
      exact compressible'.chases_unique (chases' s) there
    subst same
    exact ⟨g'', run', compressed.sameUpToOrder compressed'⟩

/-- The graph of a function that ends in a loop with an empty body. -/
def emptyLoop : Graph where
  name := "f"
  returnType := ["int"]
  parameters := []
  table := [2, 3, 4]
  arena := #[
    { kind := .entry, successors := .singleton 2 },
    { kind := .exit, predecessors := .singleton 4 },
    { kind := .body, id := some 0, lines := ["while", "(", "c", ")"],
      predecessors := .insert (.singleton 0) 3, successors := .insert (.singleton 3) 4,
      loopExit := some 4 },
    { kind := .body, id := some 1, predecessors := .singleton 2, successors := .singleton 2 },
    { kind := .body, id := some 2, predecessors := .singleton 2, successors := .singleton 1 }]

theorem emptyLoop_flow :
    emptyLoop.Flow u v ↔ (u, v) ∈ [(0, 2), (2, 3), (2, 4), (3, 2), (4, 1)] := by
  match u with
  | 0 | 1 | 2 | 3 | 4 =>
    simp [Flow, live?, core?, block?, emptyLoop, Block.core, Block.isAlive, Option.filter]
  | n + 5 => simp [Flow, live?, core?, block?, emptyLoop]

theorem emptyLoop_entered :
    emptyLoop.Entered u v ↔ (u, v) ∈ [(0, 2), (2, 3), (2, 4), (3, 2), (4, 1)] := by
  match v with
  | 0 | 1 | 2 | 3 | 4 => simp [Entered, block?, emptyLoop]
  | n + 5 => simp [Entered, block?, emptyLoop]

theorem emptyLoop_live :
    (emptyLoop.live? h).isSome ↔ h < 5 := by
  match h with
  | 0 | 1 | 2 | 3 | 4 => decide
  | n + 5 => simp [live?, core?, block?, emptyLoop]

theorem emptyLoop_vacant : emptyLoop.Vacant h ↔ h = 3 ∨ h = 4 := by
  match h with
  | 0 | 1 | 2 | 3 | 4 =>
    simp [Vacant, live?, core?, block?, emptyLoop, Block.core, Block.isAlive, Option.filter]
  | n + 5 => simp [Vacant, live?, core?, block?, emptyLoop]

theorem emptyLoop_compressible : emptyLoop.Compressible where
  nodup := by decide
  bodies := by simp [emptyLoop, Body, block?]
  listed h x known := by
    have low : h < 5 := emptyLoop_live.1 (by simp [known])
    interval_cases h <;> cases known <;> decide
  linked := by
    constructor
    · intro u v flow
      rw [emptyLoop_flow] at flow
      rw [emptyLoop_entered, emptyLoop_live]
      simp at flow ⊢
      omega
    · intro u v alive entered
      rwa [emptyLoop_flow, ← emptyLoop_entered]
  sole h x known := by
    have low : h < 5 := emptyLoop_live.1 (by simp [known])
    interval_cases h <;> cases known <;> decide
  acyclic h round := by
    -- control gets out of the two vacant blocks at once
    have up : ∀ u v, TransGen emptyLoop.Yields u v → v = 1 ∨ v = 2 := by
      intro u v way
      obtain ⟨w, -, vacant, flow⟩ := TransGen.tail'_iff.1 way
      rw [emptyLoop_vacant] at vacant
      rw [emptyLoop_flow] at flow
      simp at flow
      omega
    obtain ⟨_, ⟨vacant, -⟩, -⟩ := TransGen.head'_iff.1 round
    have := up h h round
    rw [emptyLoop_vacant] at vacant
    omega
  targets h x t known := by
    have low : h < 5 := emptyLoop_live.1 (by simp [known])
    interval_cases h <;> cases known <;>
      simp +contextual [Block.Targets, emptyLoop, Block.core, eq_comm]

theorem elideEmpty_emptyLoop :
    emptyLoop.Compressible ∧ ∃ chase g', elideEmpty emptyLoop = .ok 2 g' ∧
      chase 2 = 2 ∧ chase 3 = 2 ∧ chase 4 = exit ∧ emptyLoop.Compressed chase g' := by
  obtain ⟨chase, chases, g', run, compressed, -⟩ := elideEmpty_compresses emptyLoop_compressible
  have count : {h | emptyLoop.Vacant h}.ncard = 2 := by
    simp only [emptyLoop_vacant]
    exact Set.ncard_pair (by decide)
  have stops : ∀ s, s ≠ 3 → s ≠ 4 → emptyLoop.Chases s s := fun s ne ne' =>
    .stop (by simp [emptyLoop_vacant, ne, ne'])
  have back : emptyLoop.Yields 3 2 := ⟨by simp [emptyLoop_vacant], by simp [emptyLoop_flow]⟩
  have out : emptyLoop.Yields 4 exit := ⟨by simp [emptyLoop_vacant], by simp [emptyLoop_flow, exit]⟩
  refine ⟨emptyLoop_compressible, chase, g', count ▸ run, ?_, ?_, ?_, compressed⟩
  · exact ((chases 2 2).1 (stops 2 (by decide) (by decide))).symm
  · exact ((chases 3 2).1 (.step back (stops 2 (by decide) (by decide)))).symm
  · exact ((chases 4 exit).1 (.step out (stops exit (by decide) (by decide)))).symm

end Graph

end Flowgraph
