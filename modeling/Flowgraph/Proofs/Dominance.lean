import Flowgraph.Proofs.Enclosure
import Flowgraph.Proofs.WellFormed
import Flowgraph.Render.Dot

/-!
# Pruned graphs are reducible

An edge that does not lead to a greater number closes a loop: it leads to the header, and every way
into the loop passes through it.  This holds when the unreachable blocks were dropped, because loops
are enclosed, and each step of the later passes keeps it.  Bypassing an empty block joins two edges
and absorbing a block hands edges on to a smaller number, so in both the numbers of three blocks are
compared; the block that goes is no header, which leaves only the harmless order.

Ways are lists of blocks in what is stated.  The proofs use `Around`, which grows by one edge.
-/

namespace Flowgraph

open Relation

theorem Render.isBackEdge_iff {x y : Block} : Render.isBackEdge x y = true ↔
    x.kind = .body ∧ y.kind = .body ∧ ∃ i j, x.id = some i ∧ y.id = some j ∧ j ≤ i := by
  unfold Render.isBackEdge
  split
  next kind kind' id id' => simp [kind, kind', id, id']
  next other =>
    simp only [Bool.false_eq_true, false_iff]
    rintro ⟨kind, kind', i, j, id, id', -⟩
    exact other i j kind kind' id id'

namespace Graph

variable {g g' g₀ : Graph} {f : SourceFunction} {live l : List Nat} {h k next a b i j n u v : Nat}
  {x y : Block}

/-- The blocks of the list are a way from the entry to `u`. -/
structure Way (g : Graph) (way : List Nat) (u : Nat) : Prop where
  first : way.head? = some entry
  last : way.getLast? = some u
  steps : way.IsChain g.Flow

/-- Every way from the entry to `u` passes through `v`. -/
def Dominates (g : Graph) (v u : Nat) : Prop := ∀ way, g.Way way u → v ∈ way

/-- Control can get from the entry to `u` around `v`. -/
inductive Around (g : Graph) (v : Nat) : Nat → Prop where
  | entry (other : entry ≠ v) : Around g v entry
  | step {a b : Nat} (way : Around g v a) (flow : g.Flow a b) (other : b ≠ v) : Around g v b

/-- Of a graph whose back edges close loops. -/
structure Reducible (g : Graph) : Prop where
  /-- An edge that is drawn dashed leads to the header of a loop, which dominates its source. -/
  closes : ∀ u x v y, g.Live u x → g.Live v y → v ∈ x.successors →
    Render.isBackEdge x y = true → y.loopExit.isSome ∧ g.Dominates v u
  /-- The edges that lead back to a dominator are those that are drawn dashed. -/
  dashed : ∀ u x v y, g.Live u x → g.Live v y → v ∈ x.successors →
    (g.Dominates v u ↔ Render.isBackEdge x y = true)
  /-- The other edges do not go round. -/
  acyclic : ∀ h, ¬ TransGen (fun u v => g.Flow u v ∧ ¬ g.Dominates v u) h h
  /-- A block that leads to itself is the header of a loop. -/
  itself : ∀ u x, g.Live u x → u ∈ x.successors → x.loopExit.isSome

theorem Around.ne (way : g.Around v u) : u ≠ v := by
  cases way with
  | entry other => exact other
  | step _ _ other => exact other

theorem Around.mono (way : g.Around v u) (more : ∀ a b, g.Flow a b → g'.Flow a b) :
    g'.Around v u := by
  induction way with
  | entry other => exact .entry other
  | step _ flow other ih => exact ih.step (more _ _ flow) other

/-- A way around a block is a way that does not pass through it. -/
theorem around_iff : g.Around v u ↔ ∃ way, g.Way way u ∧ v ∉ way := by
  constructor
  · intro around
    induction around with
    | entry other => exact ⟨[entry], ⟨rfl, rfl, .singleton _⟩, by simpa using Ne.symm other⟩
    | @step a b _ flow other ih =>
      obtain ⟨way, ⟨first, last, steps⟩, away⟩ := ih
      refine ⟨way ++ [b], ⟨?_, by simp, ?_⟩, by simp [away, Ne.symm other]⟩
      · rw [List.head?_append, first]
        rfl
      · refine List.isChain_append.2 ⟨steps, .singleton b, fun c member d member' => ?_⟩
        cases last.symm.trans member
        cases member'
        exact flow
  · rintro ⟨way, leads, away⟩
    -- A way is taken apart at its end, where the last step of going around is.
    induction way using List.reverseRecOn generalizing u with
    | nil => cases leads.first
    | append_singleton before c ih =>
      obtain ⟨first, last, steps⟩ := leads
      obtain rfl : c = u := by simpa using last
      rw [List.mem_append, List.mem_singleton, not_or] at away
      obtain ⟨steps, -, link⟩ := List.isChain_append.1 steps
      cases last' : before.getLast? with
      | none =>
        obtain rfl := List.getLast?_eq_none_iff.1 last'
        obtain rfl : c = entry := by simpa using first
        exact .entry (Ne.symm away.2)
      | some a =>
        have first : before.head? = some entry := by
          cases before with
          | nil => cases last'
          | cons => exact first
        exact (ih ⟨first, last', steps⟩ away.1).step (link a last' c rfl) (Ne.symm away.2)

theorem dominates_iff : g.Dominates v u ↔ ¬ g.Around v u := by
  rw [around_iff]
  simp [Dominates]

/-! ## Back edges close loops -/

/-- The live block `u` has the number `i`. -/
def Numbered (g : Graph) (u i : Nat) : Prop := ∃ x, g.live? u = some x ∧ x.id = some i

/-- The live block `v` is the header of a loop. -/
def Header (g : Graph) (v : Nat) : Prop := ∃ y, g.live? v = some y ∧ y.loopExit.isSome

/-- An edge that does not lead to a greater number leads to a header, and there is no way around the
header. -/
def ClosesLoops (g : Graph) : Prop :=
  ∀ u v i j, g.Flow u v → g.Numbered u i → g.Numbered v j → j ≤ i → g.Header v ∧ ¬ g.Around v u

section Swept

variable (draws : g₀.Draws f) (swept : Swept g₀ (Dropped g₀ live) g)

include draws swept

/-- Around its header there is no way into a loop. -/
theorem Swept.outside (loop : g₀.Loop i j) (header : g₀.table[i]? = some v) (around : g.Around v u)
    (named : g₀.table[n]? = some u) : n < i ∨ j ≤ n := by
  induction around generalizing n with
  | entry =>
    have := draws.sound.inside_of_named named
    exact absurd this (by decide)
  | @step a b _ flow other ih =>
    by_contra inside
    have ne : i ≠ n := by
      rintro rfl
      exact other (Option.some.inj (named.symm.trans header))
    obtain ⟨x, known, -⟩ := id flow
    obtain ⟨rfl, -⟩ | ⟨rfl, -⟩ | ⟨m, _, _, _, kept, named', -⟩ := swept.live_cases draws known
    · obtain rfl := (swept.flow_entry draws).1 flow
      have := draws.sound.number_unique named draws.sound.first
      omega
    · exact swept.not_flow_exit draws flow
    · obtain ⟨p, arc, place⟩ := (swept.flow_iff draws kept named').1 flow
      obtain rfl := Place.unique draws.sound (p := some n) named place
      exact draws.encloses loop (ih named') (by omega) (by omega) arc

theorem Swept.closesLoops : g.ClosesLoops := by
  rintro u v i j flow ⟨x, known, id⟩ ⟨y, known', id'⟩ le
  obtain ⟨rfl, rfl⟩ | ⟨rfl, rfl⟩ | ⟨i', _, _, _, kept, named, -, -, rfl, -⟩ :=
    swept.live_cases draws known
  · cases id
  · cases id
  cases id
  obtain ⟨rfl, rfl⟩ | ⟨rfl, rfl⟩ | ⟨j', lines, e, e', -, named', has, -, rfl, rel⟩ :=
    swept.live_cases draws known'
  · cases id'
  · cases id'
  cases id'
  obtain ⟨p, arc, place⟩ := (swept.flow_iff draws kept named).1 flow
  obtain rfl := Place.unique draws.sound (p := some j) named' place
  obtain less | ⟨r, loop, low, high⟩ :=
    (draws.fits (List.getElem?_eq_some_iff.1 named).1).forward j arc
  · omega
  · refine ⟨⟨_, known', ?_⟩, fun around => ?_⟩
    · obtain ⟨into, rfl⟩ := (has.loop_iff draws.sound).1 loop
      cases rel
      rfl
    · have := swept.outside draws loop named' around named
      omega

end Swept

/-! ## Bypassing and absorbing -/

namespace Elides

variable (tidy : g.Tidy) (elides : g.Elides h next g')

include tidy elides

theorem numbered_iff : g'.Numbered k i ↔ k ≠ h ∧ g.Numbered k i := by
  constructor
  · rintro ⟨y, found, id⟩
    obtain ⟨away, z, found', rfl⟩ := elides.live_inv tidy found
    exact ⟨away, z, found', by simpa using id⟩
  · rintro ⟨away, z, found, id⟩
    refine ⟨z.bypassing h next, ?_, by simpa using id⟩
    rw [elides.live_other tidy away, found]
    rfl

theorem keeps_header (header : g.Header k) (away : k ≠ h) : g'.Header k := by
  obtain ⟨y, known, exits⟩ := header
  refine ⟨y.bypassing h next, by rw [elides.live_other tidy away, known]; rfl, ?_⟩
  unfold Block.bypassing
  split
  · show (if y.loopExit = some h then some next else y.loopExit).isSome
    split
    · rfl
    · exact exits
  · exact exits

/-- A way that leads past the bypassed block led through it. -/
theorem around (other : v ≠ h) (way : g'.Around v u) : g.Around v u := by
  induction way with
  | entry away => exact .entry away
  | @step a b _ flow away ih =>
    obtain ⟨-, w, flow', rfl⟩ := (elides.flow_iff tidy).1 flow
    by_cases same : w = h
    · subst same
      rw [past_self] at away ⊢
      exact (ih.step flow' (Ne.symm other)).step (elides.flow_self_iff.2 rfl) away
    · rw [past_of_ne same] at away ⊢
      exact ih.step flow' away

omit tidy in
theorem not_header : ¬ g.Header h := by
  rintro ⟨x, known, exits⟩
  obtain ⟨y, known', -, -, ends⟩ := elides.empty
  cases known.symm.trans known'
  cases ends with
  | goes _ _ _ noExit => simp [noExit] at exits

theorem keeps_closesLoops (closes : g.ClosesLoops) : g'.ClosesLoops := by
  intro u v i j flow number number' le
  obtain ⟨-, number⟩ := (elides.numbered_iff tidy).1 number
  obtain ⟨away, number'⟩ := (elides.numbered_iff tidy).1 number'
  obtain ⟨-, w, flow', eq⟩ := (elides.flow_iff tidy).1 flow
  by_cases same : w = h
  · -- Two edges meet in the bypassed block, and it is the second that leads back.
    subst same
    rw [past_self] at eq
    subst eq
    have onward : g.Flow w v := elides.flow_self_iff.2 rfl
    obtain ⟨m, middle⟩ : ∃ m, g.Numbered w m := by
      obtain ⟨z, known, body, -⟩ := elides.empty
      obtain ⟨m, id⟩ := Block.id_of_alive (live?_eq_some.1 known).2 body
      exact ⟨m, z, known, id⟩
    by_cases back : m ≤ i
    · exact absurd (closes u w i m flow' number middle back).1 elides.not_header
    · obtain ⟨header, none⟩ := closes w v m j onward middle number' (by omega)
      exact ⟨elides.keeps_header tidy header away, fun way =>
        none ((elides.around tidy away way).step flow' (Ne.symm away))⟩
  · rw [past_of_ne same] at eq
    subst eq
    obtain ⟨header, none⟩ := closes u v i j flow' number number' le
    exact ⟨elides.keeps_header tidy header away, fun way => none (elides.around tidy away way)⟩

end Elides

namespace Absorbs

variable (tidy : g.Tidy) (absorbs : g.Absorbs h next g')

include tidy absorbs

theorem numbered_iff : g'.Numbered k i ↔ k ≠ next ∧ g.Numbered k i := by
  obtain ⟨x, known, -⟩ := absorbs.merges.leads
  obtain ⟨y, known', -⟩ := absorbs.merges.target tidy.woven
  by_cases gone : k = next
  · subst gone
    simp [Numbered, absorbs.live_next tidy.woven]
  · by_cases self : k = h
    · subst self
      simp [Numbered, absorbs.live_self known known', known, gone, Block.merged]
    · simp [Numbered, absorbs.live_other self gone, gone]

theorem around (other : v ≠ next) (way : g'.Around v u) : g.Around v u := by
  induction way with
  | entry away => exact .entry away
  | @step a b _ flow away ih =>
    by_cases self : a = h
    · subst self
      exact (ih.step (absorbs.merges.flow_iff.2 rfl) (Ne.symm other)).step
        ((absorbs.flow_self tidy.woven).1 flow) away
    · have source : a ≠ next := by
        rintro rfl
        exact absorbs.not_flow_next tidy.woven flow
      exact ih.step ((absorbs.flow_other self source).1 flow) away

theorem not_header : ¬ g.Header h := by
  rintro ⟨x, known, exits⟩
  obtain ⟨y, known', body, leads⟩ := absorbs.merges.leads
  cases known.symm.trans known'
  obtain ⟨e, ends, -⟩ := tidy.ends h x known body
  cases ends with
  | goes _ _ _ noExit => simp [noExit] at exits
  | branches _ _ _ noExit => simp [noExit] at exits
  | @loops body after apart successors =>
    -- The header of a loop leads to two blocks.
    have first := (successors body).2 (.inl rfl)
    have second := (successors after).2 (.inr rfl)
    rw [OrderedSet.mem_iff, leads, List.mem_singleton] at first second
    exact apart (first.trans second.symm)

/-- Control gets to the block before it gets to the block that it absorbs. -/
theorem around_next (passable : g.Passable) : g.Around next h := by
  have other := (absorbs.entry_ne tidy.woven).2
  have either : ∀ w, ReflTransGen g.Flow entry w → g.Around next h ∨ g.Around next w := by
    intro w way
    induction way with
    | refl => exact .inr (.entry other)
    | @tail a b _ flow ih =>
      obtain before | before := ih
      · exact .inl before
      · by_cases same : b = next
        · obtain rfl := absorbs.merges.alone a (same ▸ flow)
          exact .inl before
        · exact .inr (before.step flow same)
  obtain ⟨x, known, -⟩ := absorbs.merges.leads
  exact (either h (passable h (by simp [known])).1).elim id id

theorem keeps_closesLoops (passable : g.Passable) (closes : g.ClosesLoops) : g'.ClosesLoops := by
  intro u v i j flow number number' le
  obtain ⟨source, number⟩ := (absorbs.numbered_iff tidy).1 number
  obtain ⟨away, number'⟩ := (absorbs.numbered_iff tidy).1 number'
  have keeps_header : g.Header v → g'.Header v := by
    intro header
    have self : v ≠ h := fun same => absorbs.not_header tidy (same ▸ header)
    obtain ⟨y, known, exits⟩ := header
    exact ⟨y, by rw [absorbs.live_other self away, known], exits⟩
  by_cases self : u = h
  · -- The edge was one of the absorbed block, whose number is greater.
    subst self
    have onward := (absorbs.flow_self tidy.woven).1 flow
    have link : g.Flow u next := absorbs.merges.flow_iff.2 rfl
    obtain ⟨m, middle⟩ : ∃ m, g.Numbered next m := by
      obtain ⟨z, known, body⟩ := absorbs.merges.target tidy.woven
      obtain ⟨m, id⟩ := Block.id_of_alive (live?_eq_some.1 known).2 body
      exact ⟨m, z, known, id⟩
    by_cases back : m ≤ i
    · exact absurd (absorbs.around_next tidy passable) (closes u next i m link number middle back).2
    · obtain ⟨header, none⟩ := closes next v m j onward middle number' (by omega)
      exact ⟨keeps_header header, fun way =>
        none ((absorbs.around tidy away way).step link (Ne.symm away))⟩
  · have before := (absorbs.flow_other self source).1 flow
    obtain ⟨header, none⟩ := closes u v i j before number number' le
    exact ⟨keeps_header header, fun way => none (absorbs.around tidy away way)⟩

end Absorbs

/-! ## The passes -/

theorem Elidable.closesLoops {hs : List Nat} (elidable : g.Elidable) (elided : Elided hs g g')
    (closes : g.ClosesLoops) : g'.ClosesLoops := by
  induction elided with
  | nil => exact closes
  | cons first _ ih =>
    exact ih (elidable.elides first) (first.keeps_closesLoops elidable.tidy closes)

theorem Mergeable.closesLoops_visited (mergeable : g.Mergeable) (visited : Visited h n g g')
    (closes : g.ClosesLoops) : g'.ClosesLoops := by
  induction visited with
  | stop => exact closes
  | step first _ ih =>
    exact ih (mergeable.absorbs first)
      (first.keeps_closesLoops mergeable.tidy mergeable.passable closes)

theorem Mergeable.closesLoops (mergeable : g.Mergeable) (merged : Merged l n g g')
    (closes : g.ClosesLoops) : g'.ClosesLoops := by
  induction merged with
  | nil => exact closes
  | gone _ _ ih => exact ih mergeable closes
  | visit _ first _ ih =>
    exact ih (mergeable.visited first) (mergeable.closesLoops_visited first closes)

theorem Pruned.closesLoops {report : PruneReport} (draws : g₀.Draws f) (reached : g₀.Reached live)
    (pruned : g₀.Pruned live g report) : g.ClosesLoops := by
  obtain ⟨g₁, g₂, g₃, swept, elided, merged, rfl, -⟩ := pruned.steps
  have elidable := swept.elidable draws reached
  have closes := (elidable.mergeable elided).closesLoops merged
    (elidable.closesLoops elided (swept.closesLoops draws))
  intro u v i j flow number number' le
  obtain ⟨header, none⟩ := closes u v i j flow number number' le
  exact ⟨header, fun way => none (way.mono fun _ _ => id)⟩

/-! ## Reducible graphs -/

section Reducible

variable (tidy : g.Tidy)

include tidy

theorem Tidy.not_flow_entry : ¬ g.Flow u Graph.entry :=
  fun flow => tidy.source u (tidy.flow u Graph.entry flow).1

/-- A block between two others is numbered. -/
theorem Tidy.numbered_between (before : g.Flow u v) (behind : g.Flow v k) : ∃ i, g.Numbered v i := by
  obtain ⟨x, known, member⟩ := id behind
  have body : x.kind = .body := by
    rw [tidy.kinds v x (live?_eq_some.1 known).1, BlockKind.ofHandle_eq_body]
    have first : v ≠ 0 := by
      rintro rfl
      exact tidy.not_flow_entry before
    have last : v ≠ 1 := by
      rintro rfl
      exact tidy.not_flow_exit behind
    omega
  obtain ⟨i, id⟩ := Block.id_of_alive (live?_eq_some.1 known).2 body
  exact ⟨i, x, known, id⟩

/-- Control gets to every block around those with greater numbers. -/
theorem ClosesLoops.around (closes : g.ClosesLoops) (way : ReflTransGen g.Flow entry u)
    (number : g.Numbered u i) (greater : g.Numbered v j) (less : i < j) : g.Around v u := by
  -- A way may go round, so what is said of `u` is said of all blocks on every way to it.
  have rising : ∀ w, ReflTransGen g.Flow entry w → ∀ b, ¬ g.Around b w → ∀ v i j, g.Numbered b i →
      g.Numbered v j → i < j → g.Around v b := by
    intro w way
    induction way with
    | refl =>
      rintro b none v i j ⟨x, known, id⟩
      have same : b = entry := by
        by_contra other
        exact none (.entry (Ne.symm other))
      obtain ⟨first, known'⟩ := tidy.entry
      subst same
      cases known.symm.trans known'
      cases id
    | @tail a w before flow ih =>
      intro b none v i j number greater less
      by_cases same : w = b
      · subst same
        have other : w ≠ v := by
          rintro rfl
          obtain ⟨x, known, id⟩ := number
          obtain ⟨y, known', id'⟩ := greater
          cases known.symm.trans known'
          cases id.symm.trans id'
          omega
        obtain rfl | ⟨c, -, into⟩ := ReflTransGen.cases_tail before
        · refine .step (.entry ?_) flow other
          rintro rfl
          obtain ⟨x, known, id⟩ := greater
          obtain ⟨first, known'⟩ := tidy.entry
          cases known.symm.trans known'
          cases id
        · obtain ⟨k, middle⟩ := tidy.numbered_between into flow
          by_cases back : i ≤ k
          · exact ih w (closes a w k i flow middle number back).2 v i j number greater less
          · exact (ih a (fun way => way.ne rfl) v k j middle greater (by omega)).step flow other
      · exact ih b (fun way => none (way.step flow same)) v i j number greater less
  exact rising u way u (fun way => way.ne rfl) v i j number greater less

end Reducible

/-- The way to a block that control leaves does not lead over the exit. -/
theorem Tidy.around_exit (tidy : g.Tidy) (way : ReflTransGen g.Flow Graph.entry u)
    (other : u ≠ Graph.exit) : g.Around Graph.exit u := by
  induction way with
  | refl => exact .entry other
  | @tail a b _ flow ih =>
    refine (ih ?_).step flow other
    rintro rfl
    exact tidy.not_flow_exit flow

/-- An edge leads back to a dominator if and only if it does not lead to a greater number. -/
theorem Canonical.dominates_iff (canonical : g.Canonical) (closes : g.ClosesLoops)
    (flow : g.Flow u v) :
    g.Dominates v u ↔ ∃ i j, g.Numbered u i ∧ g.Numbered v j ∧ j ≤ i := by
  have tidy := canonical.tidy
  rw [Graph.dominates_iff]
  constructor
  · intro none
    obtain ⟨x, known, -⟩ := id flow
    have way := (canonical.passable u (by simp [known])).1
    have target := (tidy.flow u v flow).2
    have behind := (canonical.passable v target).2
    -- Both blocks have numbers: control comes to each from somewhere and goes on from it.
    obtain rfl | ⟨c, onward, -⟩ := ReflTransGen.cases_head behind
    · refine absurd (tidy.around_exit way ?_) none
      rintro rfl
      exact tidy.not_flow_exit flow
    obtain rfl | ⟨b, -, into⟩ := ReflTransGen.cases_tail way
    · refine absurd (.entry ?_) none
      rintro rfl
      exact tidy.not_flow_entry flow
    obtain ⟨i, number⟩ := tidy.numbered_between into flow
    obtain ⟨j, number'⟩ := tidy.numbered_between flow onward
    refine ⟨i, j, number, number', ?_⟩
    by_contra less
    exact none (closes.around tidy way number number' (by omega))
  · rintro ⟨i, j, number, number', le⟩
    exact (closes u v i j flow number number' le).2

theorem Live.numbered (live : g.Live u x) : g.Numbered u i ↔ x.id = some i := by
  simp [Numbered, live.core, Block.core]

/-- Numbers stand for body blocks. -/
theorem Tidy.body_of_numbered (tidy : g.Tidy) (live : g.Live u x) (number : g.Numbered u i) :
    x.kind = .body := by
  rw [tidy.kind_eq live, BlockKind.ofHandle_eq_body]
  exact (tidy.inside u (List.mem_of_getElem? (tidy.named_of_live live (live.numbered.1 number)))).1

theorem Canonical.reducible (canonical : g.Canonical) (closes : g.ClosesLoops) : g.Reducible := by
  have tidy := canonical.tidy
  have dashed : ∀ u x v y, g.Live u x → g.Live v y → v ∈ x.successors →
      (g.Dominates v u ↔ Render.isBackEdge x y = true) := by
    intro u x v y live live' member
    rw [canonical.dominates_iff closes (live.flow.2 member), Render.isBackEdge_iff]
    constructor
    · rintro ⟨i, j, number, number', le⟩
      exact ⟨tidy.body_of_numbered live number, tidy.body_of_numbered live' number', i, j,
        live.numbered.1 number, live'.numbered.1 number', le⟩
    · rintro ⟨-, -, i, j, id, id', le⟩
      exact ⟨i, j, live.numbered.2 id, live'.numbered.2 id', le⟩
  -- An edge back to a dominator is drawn as a back edge, and leads to the header of a loop.
  have header : ∀ u v y, g.Live v y → g.Flow u v → g.Dominates v u → y.loopExit.isSome := by
    intro u v y live flow dominates
    obtain ⟨i, j, number, number', le⟩ := (canonical.dominates_iff closes flow).1 dominates
    obtain ⟨⟨z, known, exits⟩, -⟩ := closes u v i j flow number number' le
    cases live.core.symm.trans known
    exact exits
  refine ⟨fun u x v y live live' member back => ?_, dashed, fun h round => ?_,
    fun u x live member => ?_⟩
  · have dominates := (dashed u x v y live live' member).2 back
    exact ⟨header u v y live' (live.flow.2 member) dominates, dominates⟩
  · -- Along the other edges the numbers grow.
    have climbs : ∀ u v, TransGen (fun u v => g.Flow u v ∧ ¬ g.Dominates v u) u v →
        (∃ w, g.Flow w v) ∧ ∀ i j, g.Numbered u i → g.Numbered v j → i < j := by
      intro u v way
      have edge : ∀ {u v}, g.Flow u v ∧ ¬ g.Dominates v u →
          ∀ i j, g.Numbered u i → g.Numbered v j → i < j := by
        rintro u v ⟨flow, none⟩ i j number number'
        by_contra back
        exact none ((canonical.dominates_iff closes flow).2 ⟨i, j, number, number', by omega⟩)
      induction way with
      | single step => exact ⟨⟨_, step.1⟩, edge step⟩
      | @tail w v _ step ih =>
        obtain ⟨⟨b, into⟩, less⟩ := ih
        obtain ⟨k, middle⟩ := tidy.numbered_between into step.1
        refine ⟨⟨w, step.1⟩, fun i j number number' => ?_⟩
        exact (less i k number middle).trans (edge step k j middle number')
    obtain ⟨⟨w, into⟩, less⟩ := climbs h h round
    obtain ⟨_, ⟨onward, -⟩, -⟩ := TransGen.head'_iff.1 round
    obtain ⟨i, number⟩ := tidy.numbered_between into onward
    exact Nat.lt_irrefl i (less i i number number)
  · have flow := live.flow.2 member
    refine header u u x live flow ?_
    rw [Graph.dominates_iff]
    exact fun way => way.ne rfl

end Graph

/-- **Pruned graphs are reducible**, and the edges that are drawn dashed are where loops close. -/
theorem SourceFunction.prunedGraph_reducible (f : SourceFunction) :
    ∃ g report, f.prunedGraph = .ok (g, report) ∧ g.Reducible := by
  obtain ⟨g₀, live, g, report, draws, reached, run, pruned⟩ := f.prunedGraph_run
  exact ⟨g, report, run,
    (pruned.canonical draws reached).reducible (pruned.closesLoops draws reached)⟩

end Flowgraph
