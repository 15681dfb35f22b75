import Flowgraph.Proofs.Live
import Flowgraph.Proofs.Removals

/-!
# Bypassing an empty block

When an empty block `h` is bypassed, every edge into it becomes an edge to the block `next` behind
it, and so does every target.  `past h next` says where an edge leads afterwards.  The live part
stays tidy, and nothing becomes unreachable.
-/

namespace Flowgraph

open Relation

/-- Where an edge leads when the block `h` is bypassed. -/
def past (h next v : Nat) : Nat := if v = h then next else v

@[simp] theorem past_self (h next : Nat) : past h next h = next := if_pos rfl

theorem past_of_ne {h next v : Nat} (other : v ≠ h) : past h next v = v := if_neg other

theorem Ending.map_past_of_not_mem {h next : Nat} {e : Ending Nat}
    (away : h ∉ e.targets Graph.exit) : e.map (past h next) = e := by
  cases e <;> simp_all [Ending.targets, Ending.map, past, eq_comm]

namespace Block

variable {h next v : Nat} {x : Block} {e : Ending Nat}

/-- What a live block looks like after the block `h` was bypassed. -/
def bypassing (x : Block) (h next : Nat) : Block :=
  if h ∈ x.successors then x.detoured h next else x

theorem bypassing_of_mem (member : h ∈ x.successors) : x.bypassing h next = x.detoured h next :=
  if_pos member

theorem bypassing_of_not_mem (away : h ∉ x.successors) : x.bypassing h next = x :=
  if_neg away

theorem mem_bypassing (other : next ≠ h) :
    v ∈ (x.bypassing h next).successors ↔ ∃ w ∈ x.successors, v = past h next w := by
  unfold bypassing
  split
  case isTrue member =>
    simp only [detoured, addSuccessor, dropSuccessor, retarget, OrderedSet.mem_insert,
      OrderedSet.mem_erase]
    constructor
    · rintro (⟨away, target⟩ | rfl)
      · exact ⟨v, target, (past_of_ne away).symm⟩
      · exact ⟨h, member, (past_self h v).symm⟩
    · rintro ⟨w, target, rfl⟩
      by_cases same : w = h
      · subst same
        exact .inr (past_self w next)
      · rw [past_of_ne same]
        exact .inl ⟨same, target⟩
  case isFalse away =>
    have ne : ∀ w ∈ x.successors, w ≠ h := by
      rintro w target rfl
      exact away target
    constructor
    · intro target
      exact ⟨v, target, (past_of_ne (ne v target)).symm⟩
    · rintro ⟨w, target, rfl⟩
      rwa [past_of_ne (ne w target)]

theorem bypassing_of_singleton {kind : BlockKind} :
    Block.bypassing { kind, successors := .singleton v } h next =
      { kind, successors := .singleton (past h next v) } := by
  unfold bypassing
  split
  case isTrue member =>
    obtain rfl := OrderedSet.mem_singleton.1 member
    simp [detoured, retarget, dropSuccessor, addSuccessor]
  case isFalse away =>
    have other : v ≠ h := by simpa [eq_comm] using away
    rw [past_of_ne other]

@[simp] theorem kind_bypassing : (x.bypassing h next).kind = x.kind := by
  unfold bypassing
  split <;> rfl

@[simp] theorem id_bypassing : (x.bypassing h next).id = x.id := by
  unfold bypassing
  split <;> rfl

@[simp] theorem lines_bypassing : (x.bypassing h next).lines = x.lines := by
  unfold bypassing
  split <;> rfl

theorem sealed_bypassing : (x.bypassing h next).sealed = x.sealed := by
  unfold bypassing
  split <;> rfl

@[simp] theorem isAlive_bypassing : (x.bypassing h next).isAlive = x.isAlive := by
  simp [isAlive]

/-- The targets move with the edges. -/
theorem Ends.bypassing (ends : x.Ends e) (other : next ≠ h)
    (apart : ∀ body after, e = .loops body after → past h next body ≠ past h next after) :
    (x.bypassing h next).Ends (e.map (past h next)) := by
  have mem := fun v => mem_bypassing (x := x) (v := v) other
  by_cases member : h ∈ x.successors
  case neg =>
    have away : h ∉ e.targets Graph.exit := fun target => member (ends.mem_successors.2 target)
    rw [Ending.map_past_of_not_mem away, bypassing_of_not_mem member]
    exact ends
  case pos =>
    have eq : x.bypassing h next = x.detoured h next := bypassing_of_mem member
    -- a recorded target moves exactly as the edge to it does, and no target stays no target
    have follow : ∀ {o : Option Nat} {t : Nat}, o = some t →
        (if o = some h then some next else o) = some (past h next t) := by
      rintro o t rfl
      by_cases same : t = h <;> simp [past, same]
    have follow_none : ∀ {o : Option Nat}, o = none → (if o = some h then some next else o) = none := by
      rintro o rfl
      rfl
    rw [eq] at mem ⊢
    cases ends with
    | goes successors noThen noElse noExit =>
      -- with one successor, that one is the bypassed block
      obtain rfl : h = _ := by simpa [successors] using member
      refine .goes ?_ (follow_none noThen) (follow_none noElse) (follow_none noExit)
      simp [detoured, retarget, dropSuccessor, addSuccessor, successors]
    | branches successors isThen isElse noExit =>
      refine .branches (fun v => ?_) (follow isThen) (follow isElse) (follow_none noExit)
      rw [mem]
      simp [successors]
    | @loops body after _ successors noThen noElse isExit =>
      refine .loops (apart body after rfl) (fun v => ?_) (follow_none noThen) (follow_none noElse)
        (follow isExit)
      rw [mem]
      simp [successors]

end Block

namespace Graph

variable {g g' : Graph} {h next k u v : Nat} {x y : Block}

theorem Skips.trans {w : Nat} (way : g.Skips u v) (way' : g.Skips v w) : g.Skips u w := by
  induction way with
  | refl u => exact way'
  | step live body empty next _ ih => exact .step live body empty next (ih way')

namespace Bypassed

variable (bypassed : Bypassed g h next g')

include bypassed

/-- Only the number of the bypassed block is taken away, and texts stay as they are. -/
theorem core_kept (known : g.core? k = some x) :
    ∃ y, g'.core? k = some y ∧ y.kind = x.kind ∧ y.lines = x.lines ∧ y.sealed = x.sealed ∧
      y.id = if k = h then none else x.id := by
  by_cases same : k = h
  · subst same
    exact ⟨x.retire, by simp [bypassed.removed, known], rfl, rfl, rfl, by simp [Block.retire]⟩
  · simp only [same, if_false]
    by_cases entered : g.Entered k h
    · exact ⟨x.detoured h next, by simp [bypassed.around k same entered, known], rfl, rfl, rfl, rfl⟩
    · exact ⟨x, by simp [bypassed.away k same entered, known], rfl, rfl, rfl, rfl⟩

theorem live_self (body : g.Body h) : g'.live? h = none := by
  obtain ⟨x, known, kind⟩ := body_iff_core.1 body
  rw [live?, bypassed.removed, known]
  simp [Option.filter, Block.isAlive, Block.retire, kind]

variable (linked : g.Linked)

include linked

theorem live_other (alive : (g.live? h).isSome) (away : k ≠ h) :
    g'.live? k = (g.live? k).map (·.bypassing h next) := by
  cases found : g.live? k with
  | none =>
    by_cases entered : g.Entered k h
    · rw [live?, bypassed.around k away entered, Option.filter_map]
      have same : Block.isAlive ∘ (·.detoured h next) = Block.isAlive := rfl
      rw [same, ← live?, found]
      rfl
    · rw [live?, bypassed.away k away entered, ← live?, found]
      rfl
  | some y =>
    have core := (live?_eq_some.1 found).1
    refine live?_eq_some.2 ⟨?_, by simpa using (live?_eq_some.1 found).2⟩
    by_cases entered : g.Entered k h
    · obtain ⟨z, found', member⟩ := linked.entered k h alive entered
      cases found.symm.trans found'
      rw [bypassed.around k away entered, core]
      exact congrArg some (Block.bypassing_of_mem member).symm
    · have outside : h ∉ y.successors := fun member =>
        entered (linked.flow k h ⟨y, found, member⟩).1
      rw [bypassed.away k away entered, core]
      exact congrArg some (Block.bypassing_of_not_mem outside).symm

variable (body : g.Body h) (leads : ∀ v, g.Flow h v ↔ v = next)

include body leads

omit bypassed linked body in
theorem alive_of_leads : (g.live? h).isSome := by
  obtain ⟨x, known, -⟩ := (leads next).2 rfl
  simp [known]

theorem live_inv (found : g'.live? k = some y) :
    k ≠ h ∧ ∃ z, g.live? k = some z ∧ y = z.bypassing h next := by
  have away : k ≠ h := by
    rintro rfl
    cases (bypassed.live_self body).symm.trans found
  obtain ⟨z, found', eq⟩ :=
    Option.map_eq_some_iff.1 (bypassed.live_other linked (alive_of_leads leads) away ▸ found)
  exact ⟨away, z, found', eq.symm⟩

theorem isSome_iff : (g'.live? k).isSome ↔ k ≠ h ∧ (g.live? k).isSome := by
  by_cases same : k = h
  · simp [same, bypassed.live_self body]
  · simp [same, bypassed.live_other linked (alive_of_leads leads) same]

variable (other : next ≠ h)

include other

theorem flow_iff : g'.Flow u v ↔ u ≠ h ∧ ∃ w, g.Flow u w ∧ v = past h next w := by
  constructor
  · rintro ⟨y, found, member⟩
    obtain ⟨away, z, found', rfl⟩ := bypassed.live_inv linked body leads found
    obtain ⟨w, member, eq⟩ := (Block.mem_bypassing other).1 member
    exact ⟨away, w, ⟨z, found', member⟩, eq⟩
  · rintro ⟨away, w, ⟨z, found, member⟩, eq⟩
    refine ⟨z.bypassing h next, ?_, (Block.mem_bypassing other).2 ⟨w, member, eq⟩⟩
    rw [bypassed.live_other linked (alive_of_leads leads) away, found]
    rfl

/-- The edges that are drawn are kept at both ends again. -/
theorem keeps_linked : g'.Linked where
  flow u v flow := by
    obtain ⟨away, w, flow', rfl⟩ := (bypassed.flow_iff linked body leads other).1 flow
    obtain ⟨entered, alive⟩ := linked.flow u w flow'
    rw [bypassed.entered, bypassed.isSome_iff linked body leads]
    by_cases same : w = h
    · subst same
      rw [past_self, if_pos rfl]
      exact ⟨.inr entered, other, (linked.flow w next ((leads next).2 rfl)).2⟩
    · rw [past_of_ne same]
      refine ⟨?_, same, alive⟩
      split
      case isTrue eq => exact .inl ⟨away, eq ▸ entered⟩
      case isFalse => exact entered
  entered u v alive entered := by
    obtain ⟨away, alive⟩ := (bypassed.isSome_iff linked body leads).1 alive
    rw [bypassed.flow_iff linked body leads other]
    rw [bypassed.entered] at entered
    split at entered
    case isTrue eq =>
      subst eq
      obtain ⟨other, entered⟩ | entered := entered
      · exact ⟨other, v, linked.entered u v alive entered, (past_of_ne away).symm⟩
      -- `u` entered `h`, so its edge is the one that now leads to `next`
      · have flow := linked.entered u h (alive_of_leads leads) entered
        refine ⟨?_, h, flow, (past_self h v).symm⟩
        rintro rfl
        exact away ((leads u).1 flow).symm
    case isFalse ne =>
      have flow := linked.entered u v alive entered
      refine ⟨?_, v, flow, (past_of_ne away).symm⟩
      rintro rfl
      exact ne ((leads v).1 flow)

end Bypassed

/-- The graph `g'` is `g` without the empty block `h`, which leads to `next`. -/
structure Elides (g : Graph) (h next : Nat) (g' : Graph) : Prop where
  empty : ∃ x, g.live? h = some x ∧ x.kind = .body ∧ x.lines = [] ∧ x.Ends (.goes next)
  other : next ≠ h
  bypassed : Bypassed g h next g'

/-- An empty block goes to one other block. -/
theorem Tidy.goes_of_empty (tidy : g.Tidy) (rises : g.Rises) (known : g.live? h = some x)
    (body : x.kind = .body) (empty : x.lines = []) : ∃ next, x.Ends (.goes next) ∧ next ≠ h := by
  obtain ⟨e, ends, asked⟩ := tidy.ends h x known body
  have quiet : ¬ e.decides := fun decides => by simpa [empty] using asked decides
  cases ends with
  | branches | loops => exact absurd rfl quiet
  | @goes next successors noThen noElse noExit =>
    refine ⟨next, .goes successors noThen noElse noExit, fun loop => ?_⟩
    obtain ⟨i, id⟩ := Block.id_of_alive (live?_eq_some.1 known).2 body
    -- an edge from the block to itself would have to raise its own number
    have less := rises h h x x i i known empty id (by simp [successors, loop]) known empty id
    omega

/-- Bypassing an empty block ends well. -/
theorem Tidy.elides (tidy : g.Tidy) (rises : g.Rises) (known : g.live? h = some x)
    (body : x.kind = .body) (empty : x.lines = []) :
    ∃ next g', bypass h g = .ok () g' ∧ Elides g h next g' := by
  obtain ⟨next, ends, other⟩ := tidy.goes_of_empty rises known body empty
  have leads : x.successors = .singleton next := by
    cases ends with
    | goes successors => exact successors
  have alive : (g.live? h).isSome := by simp [known]
  obtain ⟨y, known'⟩ := Option.isSome_iff_exists.1
    (tidy.flow h next ⟨x, known, by simp [leads]⟩).2
  have loop : ¬ g.Entered h h := fun entered => by
    obtain ⟨z, found, member⟩ := tidy.entered h h alive entered
    cases known.symm.trans found
    rw [leads, OrderedSet.mem_singleton] at member
    exact other member.symm
  have near : ∀ u, g.Entered u h → u < g.arena.size := fun u entered => by
    obtain ⟨z, found, -⟩ := tidy.entered u h alive entered
    exact live_lt found
  obtain ⟨g', run, bypassed⟩ := bypass_run (live?_eq_some.1 known).1 leads other (live_lt known')
    loop near
  exact ⟨next, g', run, ⟨x, known, body, empty, ends⟩, other, bypassed⟩

namespace Elides

variable (tidy : g.Tidy) (elides : g.Elides h next g')

include elides

theorem alive : (g.live? h).isSome := by
  obtain ⟨x, known, -⟩ := elides.empty
  simp [known]

theorem flow_self_iff : g.Flow h v ↔ v = next := by
  obtain ⟨x, known, -, -, ends⟩ := elides.empty
  have member : v ∈ x.successors ↔ v = next := by simp [ends.mem_successors, Ending.targets]
  simp [Flow, known, member]

theorem body : g.Body h := by
  obtain ⟨x, known, body, -⟩ := elides.empty
  exact body_iff_core.2 ⟨x, (live?_eq_some.1 known).1, body⟩

theorem live_self : g'.live? h = none := elides.bypassed.live_self elides.body

/-- What the blocks are that are not numbered any more, or never were. -/
theorem core_inv (found : g'.core? k = some y) : ∃ z, g.core? k = some z ∧ y.kind = z.kind ∧
    ∀ i, y.id = some i → z.id = some i := by
  have bypassed := elides.bypassed
  by_cases same : k = h
  · subst same
    obtain ⟨z, found', rfl⟩ := Option.map_eq_some_iff.1 (bypassed.removed ▸ found)
    exact ⟨z, found', rfl, fun i id => by cases id⟩
  · by_cases entered : g.Entered k h
    · obtain ⟨z, found', rfl⟩ := Option.map_eq_some_iff.1 (bypassed.around k same entered ▸ found)
      exact ⟨z, found', rfl, fun i id => id⟩
    · exact ⟨y, bypassed.away k same entered ▸ found, rfl, fun i id => id⟩

include tidy

theorem live_other (away : k ≠ h) : g'.live? k = (g.live? k).map (·.bypassing h next) :=
  elides.bypassed.live_other tidy.linked elides.alive away

theorem live_inv (found : g'.live? k = some y) :
    k ≠ h ∧ ∃ z, g.live? k = some z ∧ y = z.bypassing h next :=
  elides.bypassed.live_inv tidy.linked elides.body (fun _ => elides.flow_self_iff) found

theorem isSome_iff : (g'.live? k).isSome ↔ k ≠ h ∧ (g.live? k).isSome :=
  elides.bypassed.isSome_iff tidy.linked elides.body fun _ => elides.flow_self_iff

theorem roll_eq : g'.roll = g.roll.filter (· != h) := by
  rw [roll, roll, elides.bypassed.reworks.table, List.filter_filter]
  refine List.filter_congr fun k _ => Bool.eq_iff_iff.2 ?_
  rw [elides.isSome_iff tidy, Bool.and_eq_true, bne_iff_ne]

theorem flow_iff : g'.Flow u v ↔ u ≠ h ∧ ∃ w, g.Flow u w ∧ v = past h next w :=
  elides.bypassed.flow_iff tidy.linked elides.body (fun _ => elides.flow_self_iff) elides.other

theorem keeps_linked : g'.Linked :=
  elides.bypassed.keeps_linked tidy.linked elides.body (fun _ => elides.flow_self_iff) elides.other

omit tidy in
/-- The way of a bypassed edge was open before. -/
theorem skips_past (v : Nat) : g.Skips v (past h next v) := by
  by_cases same : v = h
  · subst same
    obtain ⟨x, known, body, empty, ends⟩ := elides.empty
    rw [past_self]
    exact .step known body empty (ends.mem_successors.2 (by simp [Ending.targets])) (.refl next)
  · rw [past_of_ne same]
    exact .refl v

theorem skips (way : g'.Skips u v) : g.Skips u v := by
  induction way with
  | refl u => exact .refl u
  | @step u v w y found body empty member _ ih =>
    obtain ⟨-, z, found', rfl⟩ := elides.live_inv tidy found
    obtain ⟨t, member', rfl⟩ := (Block.mem_bypassing elides.other).1 member
    exact .step found' (by simpa using body) (by simpa using empty) member'
      ((elides.skips_past t).trans ih)

omit tidy in
/-- The two places behind the header of a loop are kept apart. -/
theorem past_apart (apart : g.Apart) {body after : Nat} (known : g.live? k = some x)
    (kind : x.kind = .body) (ends : x.Ends (.loops body after)) :
    past h next body ≠ past h next after := fun same =>
  apart k x body after known kind ends _ (elides.skips_past body) (same ▸ elides.skips_past after)

omit tidy in
/-- How a block ends when an empty block was bypassed. -/
theorem ends_bypassing (apart : g.Apart) (known : g.live? k = some x) {e : Ending Nat}
    (ends : x.Ends e) (kind : e.decides → x.kind = .body) :
    (x.bypassing h next).Ends (e.map (past h next)) := by
  refine ends.bypassing elides.other ?_
  rintro body after rfl
  exact elides.past_apart apart known (kind rfl) ends

theorem keeps_apart (apart : g.Apart) : g'.Apart := by
  intro k y body after found kind ends v way way'
  obtain ⟨-, z, found', rfl⟩ := elides.live_inv tidy found
  rw [Block.kind_bypassing] at kind
  obtain ⟨e, ends', -⟩ := tidy.ends k z found' kind
  have same := ends.unique (elides.ends_bypassing apart found' ends' fun _ => kind)
  cases e <;> cases same
  exact apart k z _ _ found' kind ends' v ((elides.skips_past _).trans (elides.skips tidy way))
    ((elides.skips_past _).trans (elides.skips tidy way'))

theorem keeps_rises (rises : g.Rises) : g'.Rises := by
  intro u v y z i j found empty id member found' empty' id'
  obtain ⟨-, y, known, rfl⟩ := elides.live_inv tidy found
  obtain ⟨-, z, known', rfl⟩ := elides.live_inv tidy found'
  rw [Block.lines_bypassing] at empty empty'
  rw [Block.id_bypassing] at id id'
  obtain ⟨w, member', rfl⟩ := (Block.mem_bypassing elides.other).1 member
  by_cases same : w = h
  · subst same
    rw [past_self] at known'
    obtain ⟨x, here, body, empty'', ends⟩ := elides.empty
    obtain ⟨m, id''⟩ := Block.id_of_alive (live?_eq_some.1 here).2 body
    -- two edges became one; the number of the bypassed block lies between the two others
    have first := rises u w y x i m known empty id member' here empty'' id''
    have second := rises w next x z m j here empty'' id''
      (ends.mem_successors.2 (by simp [Ending.targets])) known' empty' id'
    omega
  · rw [past_of_ne same] at known'
    exact rises u w y z i j known empty id member' known' empty' id'

/-- Ways lead around the bypassed block. -/
theorem way_past (way : ReflTransGen g.Flow u v) :
    ReflTransGen g'.Flow (past h next u) (past h next v) := by
  induction way with
  | refl => exact .refl
  | @tail v w _ flow ih =>
    by_cases same : v = h
    · subst same
      rw [past_self] at ih
      -- the step out of the bypassed block: the way has already arrived at `next`
      rwa [elides.flow_self_iff.1 flow, past_of_ne elides.other]
    · rw [past_of_ne same] at ih
      exact ih.tail ((elides.flow_iff tidy).2 ⟨same, w, flow, rfl⟩)

theorem entry_ne : entry ≠ h := by
  rintro rfl
  obtain ⟨x, known, body, -⟩ := elides.empty
  obtain ⟨first, known'⟩ := tidy.entry
  cases known.symm.trans known'
  cases body

theorem exit_ne : exit ≠ h := by
  rintro rfl
  obtain ⟨x, known, body, -⟩ := elides.empty
  cases known.symm.trans tidy.exit
  cases body

theorem keeps_passable (passable : g.Passable) : g'.Passable := by
  intro k alive
  obtain ⟨away, alive⟩ := (elides.isSome_iff tidy).1 alive
  obtain ⟨before, behind⟩ := passable k alive
  have before := elides.way_past tidy before
  have behind := elides.way_past tidy behind
  rw [past_of_ne away, past_of_ne (elides.entry_ne tidy)] at before
  rw [past_of_ne away, past_of_ne (elides.exit_ne tidy)] at behind
  exact ⟨before, behind⟩

theorem keeps_tidy (apart : g.Apart) : g'.Tidy where
  kinds k y found := by
    obtain ⟨z, found', kind, -⟩ := elides.core_inv found
    exact kind.trans (tidy.kinds k z found')
  nodup := elides.bypassed.reworks.table ▸ tidy.nodup
  inside := by
    rw [elides.bypassed.reworks.table, elides.bypassed.reworks.size]
    exact tidy.inside
  numbers k y i found id := by
    obtain ⟨z, found', -, ids⟩ := elides.core_inv found
    rw [elides.bypassed.reworks.table]
    exact tidy.numbers k z i found' (ids i id)
  entry := by
    obtain ⟨first, known⟩ := tidy.entry
    refine ⟨past h next first, ?_⟩
    rw [elides.live_other tidy (elides.entry_ne tidy), known]
    exact congrArg some Block.bypassing_of_singleton
  exit := by
    rw [elides.live_other tidy (elides.exit_ne tidy), tidy.exit]
    exact congrArg some (Block.bypassing_of_not_mem (OrderedSet.not_mem_empty h))
  source u entered := by
    have target := elides.flow_self_iff.2 rfl
    rw [elides.bypassed.entered, if_neg] at entered
    · exact tidy.source u entered
    · rintro rfl
      exact tidy.source h (tidy.flow h _ target).1
  flow := (elides.keeps_linked tidy).flow
  entered := (elides.keeps_linked tidy).entered
  ends k y found body := by
    obtain ⟨-, z, found', rfl⟩ := elides.live_inv tidy found
    rw [Block.kind_bypassing] at body
    obtain ⟨e, ends, asked⟩ := tidy.ends k z found' body
    refine ⟨e.map (past h next), elides.ends_bypassing apart found' ends fun _ => body, fun decides => ?_⟩
    rw [Ending.decides_map] at decides
    rw [Block.lines_bypassing]
    exact asked decides

end Elides

end Graph

end Flowgraph
