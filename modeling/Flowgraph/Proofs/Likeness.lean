import Flowgraph.Proofs.Copies
import Flowgraph.Proofs.Listing
import Flowgraph.Render.Record
import Flowgraph.Render.Stanza

/-!
# Graphs that look alike

The blocks of two pruned graphs correspond, and have the same neighbours and targets; the fragments
that they hold are not compared.  Then everything around the fragments is printed alike: the labels,
the lists of neighbours, which are sorted, and the notes on the targets.
-/

namespace Flowgraph

open Relator

/-! ## Two computations side by side -/

/-- Both computations end well, with related results. -/
def Both {α β ε : Type} (P : α → β → Prop) (x : Except ε α) (y : Except ε β) : Prop :=
  ∃ a b, x = .ok a ∧ y = .ok b ∧ P a b

namespace Both

variable {α β γ δ ε : Type} {P : α → β → Prop} {Q : γ → δ → Prop} {l : List α} {l' : List β}

theorem pure {a : α} {b : β} (related : P a b) :
    Both P (pure a : Except ε α) (pure b : Except ε β) := ⟨a, b, rfl, rfl, related⟩

theorem bind {x : Except ε α} {y : Except ε β} {f : α → Except ε γ} {k : β → Except ε δ}
    (first : Both P x y) (rest : ∀ a b, P a b → Both Q (f a) (k b)) :
    Both Q (x >>= f) (y >>= k) := by
  obtain ⟨a, b, rfl, rfl, related⟩ := first
  exact rest a b related

theorem mapM {f : α → Except ε γ} {k : β → Except ε δ} (related : List.Forall₂ P l l')
    (each : ∀ a b, P a b → Both Q (f a) (k b)) :
    Both (List.Forall₂ Q) (l.mapM f) (l'.mapM k) := by
  induction related with
  | nil => exact .pure .nil
  | cons first _ ih =>
    rw [List.mapM_cons, List.mapM_cons]
    exact (each _ _ first).bind fun c d same => ih.bind fun cs ds rest => .pure (.cons same rest)

/-- The same for results that are equal. -/
theorem mapM_eq {f : α → Except ε γ} {k : β → Except ε γ} (related : List.Forall₂ P l l')
    (each : ∀ a b, P a b → Both Eq (f a) (k b)) : Both Eq (l.mapM f) (l'.mapM k) := by
  obtain ⟨cs, ds, run, run', same⟩ := Both.mapM related each
  exact ⟨cs, ds, run, run', List.forall₂_eq_eq_eq ▸ same⟩

end Both

section Lists

variable {α β γ : Type} {P : α → β → Prop} {l : List α} {l' : List β}

theorem map_eq_of_forall₂ {f : α → γ} {k : β → γ} (related : List.Forall₂ P l l')
    (each : ∀ a b, P a b → f a = k b) : l.map f = l'.map k := by
  rw [← List.forall₂_eq_eq_eq, List.forall₂_map_left_iff, List.forall₂_map_right_iff]
  exact related.imp each

theorem filterMap_eq_of_forall₂ {f : α → Option γ} {k : β → Option γ}
    (related : List.Forall₂ P l l') (each : ∀ a b, P a b → f a = k b) :
    l.filterMap f = l'.filterMap k := by
  have shown := congrArg (List.filterMap id) (map_eq_of_forall₂ related each)
  simpa only [List.filterMap_map, Function.id_comp] using shown

theorem countP_eq_of_forall₂ {p : α → Bool} {q : β → Bool} (related : List.Forall₂ P l l')
    (each : ∀ a b, P a b → p a = q b) : l.countP p = l'.countP q := by
  have shown := congrArg (List.countP id) (map_eq_of_forall₂ related each)
  simpa only [List.countP_map, Function.id_comp] using shown

theorem isSome_eq_of_rel {o : Option α} {o' : Option β} (related : Option.Rel P o o') :
    o.isSome = o'.isSome := by
  cases related <;> rfl

theorem eq_some_iff_of_rel {R : α → β → Prop} (unique : BiUnique R) {o : Option α} {o' : Option β}
    (related : Option.Rel R o o') {a : α} {b : β} (same : R a b) : o = some a ↔ o' = some b := by
  cases related with
  | none => simp
  | some first => simpa using rel_eq unique first same

/-- In related lists, related elements have the same places. -/
theorem getElem?_iff_of_forall₂ {R : α → β → Prop} (unique : BiUnique R)
    (related : List.Forall₂ R l l') {a : α} {b : β} (same : R a b) {i : Nat} :
    l[i]? = some a ↔ l'[i]? = some b := by
  induction related generalizing i with
  | nil => simp
  | cons first _ ih =>
    cases i with
    | zero => simpa using rel_eq unique first same
    | succ i => simpa using ih

end Lists

/-- The two blocks are of one kind and name corresponding targets. -/
structure Block.Parallels (R : Nat → Nat → Prop) (x x' : Block) : Prop where
  kind : x.kind = x'.kind
  thenTarget : Option.Rel R x.thenTarget x'.thenTarget
  elseTarget : Option.Rel R x.elseTarget x'.elseTarget
  loopExit : Option.Rel R x.loopExit x'.loopExit

namespace Graph

variable {R : Nat → Nat → Prop} {g g' : Graph} {h h' i u u' v v' : Nat} {x x' y y' : Block}

/-- Two pruned graphs that look alike, apart from the fragments of their blocks. -/
structure Likeness (R : Nat → Nat → Prop) (g g' : Graph) : Prop where
  canonical : g.Canonical
  canonical' : g'.Canonical
  unique : BiUnique R
  entry : R Graph.entry Graph.entry
  exit : R Graph.exit Graph.exit
  roll : List.Forall₂ R g.roll g'.roll
  alive : ∀ h h', R h h' → ((g.live? h).isSome ↔ (g'.live? h').isSome)
  parallel : ∀ h h' x x', R h h' → g.live? h = some x → g'.live? h' = some x' → x.Parallels R x'
  flow_iff : ∀ u u' v v', R u u' → R v v' → (g.Flow u v ↔ g'.Flow u' v')
  name : g.name = g'.name
  returnType : g.returnType = g'.returnType
  parameters : g.parameters = g'.parameters
  phase : g.phase = .pruned
  phase' : g'.phase = .pruned

/-- Two live blocks, with their handles, that correspond. -/
structure Facing (R : Nat → Nat → Prop) (g g' : Graph) (a a' : Nat × Block) : Prop where
  same : R a.1 a'.1
  live : g.Live a.1 a.2
  live' : g'.Live a'.1 a'.2

theorem Facing.find (facing : Facing R g g' (h, x) (h', x')) :
    Both (fun b b' => b = x ∧ b' = x') (g.find h) (g'.find h') :=
  ⟨x, x', find_eq_ok.2 facing.live.1, find_eq_ok.2 facing.live'.1, rfl, rfl⟩

/-- Corresponding live blocks with the same fragments. -/
def Even (R : Nat → Nat → Prop) (g g' : Graph) (a a' : Nat × Block) : Prop :=
  Facing R g g' a a' ∧ a.2.lines = a'.2.lines

namespace Likeness

variable (likeness : Likeness R g g') {a a' b b' : Nat × Block}

include likeness

/-- The counterpart of a live block is live. -/
theorem facing (same : R h h') (live : g.Live h x) : ∃ x', Facing R g g' (h, x) (h', x') := by
  have alive := (likeness.alive h h' same).1 (by simp [live.core])
  obtain ⟨x', live'⟩ := live_of_isSome alive
  exact ⟨x', same, live, live'⟩

theorem parallels (facing : Facing R g g' a a') : a.2.Parallels R a'.2 := by
  have alike := likeness.parallel _ _ _ _ facing.same facing.live.core facing.live'.core
  exact ⟨alike.kind, alike.thenTarget, alike.elseTarget, alike.loopExit⟩

/-- Corresponding blocks have the same display number. -/
theorem get?_eq (same : R h h') : g.numbering.get? h = g'.numbering.get? h' :=
  Option.ext fun i => by
    rw [likeness.canonical.shown_iff, likeness.canonical'.shown_iff]
    exact getElem?_iff_of_forall₂ likeness.unique likeness.roll same

theorem label_eq (facing : Facing R g g' a a') : g.labelOf? a.1 a.2 = g'.labelOf? a'.1 a'.2 := by
  have kind : a.2.kind = a'.2.kind := (likeness.parallels facing).kind
  unfold labelOf?
  rw [← kind, likeness.name, likeness.get?_eq facing.same]
  cases eq : a.2.kind with
  | entry | exit => rfl
  | body =>
    obtain ⟨i, id⟩ := Block.id_of_alive facing.live.2 eq
    obtain ⟨j, id'⟩ := Block.id_of_alive facing.live'.2 (kind.symm.trans eq)
    rw [id, id']
    cases g'.numbering.get? a'.1 <;> rfl

/-- The numbers of corresponding blocks are in the same order. -/
theorem id_le_iff (first : Facing R g g' a a') (second : Facing R g g' b b') {i j i' j' : Nat}
    (id : a.2.id = some i) (id' : a'.2.id = some i') (other : b.2.id = some j)
    (other' : b'.2.id = some j') : j ≤ i ↔ j' ≤ i' := by
  -- The numbers may differ, but on both sides they rise along the roll, where counterparts have
  -- the same places.
  have places : ∀ {a a' : Nat × Block} {n n' : Nat}, Facing R g g' a a' → a.2.id = some n →
      a'.2.id = some n' → ∃ m : Nat, g.roll[m]? = some a.1 ∧ g'.roll[m]? = some a'.1 := by
    intro a a' n n' facing id id'
    have named := List.mem_of_getElem? (likeness.canonical.tidy.named_of_live facing.live id)
    have member : a.1 ∈ g.roll := List.mem_filter.2 ⟨named, by simp [facing.live.core]⟩
    obtain ⟨m, place⟩ := List.mem_iff_getElem?.1 member
    exact ⟨m, place, (getElem?_iff_of_forall₂ likeness.unique likeness.roll
      facing.same).1 place⟩
  obtain ⟨m, at₁, at₁'⟩ := places first id id'
  obtain ⟨n, at₂, at₂'⟩ := places second other other'
  have order := lt_iff_of_sublist List.filter_sublist likeness.canonical.tidy.nodup at₁ at₂
    (likeness.canonical.tidy.named_of_live first.live id)
    (likeness.canonical.tidy.named_of_live second.live other)
  have order' := lt_iff_of_sublist List.filter_sublist likeness.canonical'.tidy.nodup at₁' at₂'
    (likeness.canonical'.tidy.named_of_live first.live' id')
    (likeness.canonical'.tidy.named_of_live second.live' other')
  rw [← Nat.not_lt, ← order, order', Nat.not_lt]

/-- Live blocks in related lists face each other. -/
theorem facing_of_forall₂ {l l' : List Nat} (related : List.Forall₂ R l l')
    (alive : ∀ h ∈ l, ∃ x, g.Live h x) :
    List.Forall₂ (fun h h' => ∃ x x', Facing R g g' (h, x) (h', x')) l l' := by
  refine ((List.forall₂_and_left l l').2 ⟨alive, related⟩).imp ?_
  rintro h h' ⟨⟨x, live⟩, same⟩
  exact ⟨x, likeness.facing same live⟩

theorem order : List.Forall₂ R g.order g'.order :=
  List.rel_append likeness.roll
    (.cons likeness.entry (.cons likeness.exit .nil))

/-! ## The parts of what is printed -/

/-- Sets of corresponding blocks are listed alike. -/
theorem sortedLabels_both {s s' : OrderedSet Nat} (alive : ∀ h ∈ s, ∃ x, g.Live h x)
    (alive' : ∀ h ∈ s', ∃ x, g'.Live h x) (same : ∀ h h', R h h' → (h ∈ s ↔ h' ∈ s')) :
    Both Eq (g.sortedLabels s.toList) (g'.sortedLabels s'.toList) := by
  -- Sorted labels are those of the order of the graph, less what is not in the set.
  refine ⟨_, _, likeness.canonical.tidy.sortedLabels_ok s.nodup alive,
    likeness.canonical'.tidy.sortedLabels_ok s'.nodup alive', ?_⟩
  have listed : List.Forall₂ R (g.order.filter (· ∈ s.toList))
      (g'.order.filter (· ∈ s'.toList)) := by
    refine List.rel_filter (fun h h' related => ?_) likeness.order
    show decide (h ∈ s.toList) = true ↔ decide (h' ∈ s'.toList) = true
    rw [decide_eq_true_eq, decide_eq_true_eq]
    exact same h h' related
  have facing := likeness.facing_of_forall₂ listed fun h member =>
    likeness.canonical.tidy.mem_order.1 (List.mem_filter.1 member).1
  refine filterMap_eq_of_forall₂ facing fun h h' ⟨x, x', facing⟩ => ?_
  rw [facing.live.title, facing.live'.title]
  exact likeness.label_eq facing

theorem targetLabel_both {o o' : Option Nat} (related : Option.Rel R o o')
    (alive : ∀ h, o = some h → ∃ x, g.Live h x) :
    Both Eq (g.targetLabel? o) (g'.targetLabel? o') := by
  cases related with
  | none => exact .pure rfl
  | some same =>
    obtain ⟨x, live⟩ := alive _ rfl
    obtain ⟨x', facing⟩ := likeness.facing same live
    refine facing.find.bind ?_
    rintro _ _ ⟨rfl, rfl⟩
    exact .pure (likeness.label_eq facing)

theorem alive_both : Both (List.Forall₂ (Facing R g g')) g.alive g'.alive := by
  refine ⟨_, _, likeness.canonical.tidy.alive_eq, likeness.canonical'.tidy.alive_eq, ?_⟩
  have facing := likeness.facing_of_forall₂ likeness.roll fun h member =>
    likeness.canonical.tidy.mem_order.1 (List.mem_append_left _ member)
  rw [List.forall₂_map_left_iff, List.forall₂_map_right_iff]
  refine facing.imp fun h h' ⟨x, x', facing⟩ => ?_
  rwa [facing.live.filed, facing.live'.filed]

theorem entry_facing : ∃ x x', Facing R g g' (Graph.entry, x) (Graph.entry, x') := by
  obtain ⟨x, live⟩ := likeness.canonical.tidy.live_entry
  obtain ⟨x', facing⟩ := likeness.facing likeness.entry live
  exact ⟨x, x', facing⟩

theorem exit_facing : ∃ x x', Facing R g g' (Graph.exit, x) (Graph.exit, x') := by
  obtain ⟨x, live⟩ := likeness.canonical.tidy.live_exit
  obtain ⟨x', facing⟩ := likeness.facing likeness.exit live
  exact ⟨x, x', facing⟩

/-- The blocks that are printed, if those in between are related. -/
theorem printed_both {Q Q' : List (Nat × Block) → List (Nat × Block) → Prop}
    (middle : Both Q g.alive g'.alive)
    (around : ∀ x x' y y' l l', Facing R g g' (Graph.entry, x) (Graph.entry, x') →
      Facing R g g' (Graph.exit, y) (Graph.exit, y') → Q l l' →
      Q' ((Graph.entry, x) :: l ++ [(Graph.exit, y)])
        ((Graph.entry, x') :: l' ++ [(Graph.exit, y')])) :
    Both Q' g.printed g'.printed := by
  obtain ⟨x, x', first⟩ := likeness.entry_facing
  obtain ⟨y, y', last⟩ := likeness.exit_facing
  refine first.find.bind fun _ _ found => middle.bind fun l l' related =>
    last.find.bind fun _ _ found' => .pure ?_
  rw [found.1, found.2, found'.1, found'.2]
  exact around x x' y y' l l' first last related

/-- The blocks that are printed face each other. -/
theorem printed_facing : Both (List.Forall₂ (Facing R g g')) g.printed g'.printed := by
  apply likeness.printed_both likeness.alive_both
  intro x x' y y' l l' first last middle
  exact .cons first (List.rel_append middle (.cons last .nil))

section Facing

variable (facing : Facing R g g' a a')

include facing

theorem successors_both :
    Both Eq (g.sortedLabels a.2.successors.toList) (g'.sortedLabels a'.2.successors.toList) := by
  refine likeness.sortedLabels_both
    (fun _ => likeness.canonical.wellFormed.live_successor facing.live)
    (fun _ => likeness.canonical'.wellFormed.live_successor facing.live') fun v v' same => ?_
  rw [← facing.live.flow, ← facing.live'.flow]
  exact likeness.flow_iff _ _ _ _ facing.same same

theorem predecessors_both :
    Both Eq (g.sortedLabels a.2.predecessors.toList)
      (g'.sortedLabels a'.2.predecessors.toList) := by
  refine likeness.sortedLabels_both
    (fun _ => likeness.canonical.wellFormed.live_predecessor facing.live)
    (fun _ => likeness.canonical'.wellFormed.live_predecessor facing.live') fun u u' same => ?_
  -- What is known of the edges is told by successors, and predecessors mirror them.
  have mirrored : ∀ {g : Graph} {a : Nat × Block} {u : Nat}, g.Canonical → g.Live a.1 a.2 →
      (u ∈ a.2.predecessors ↔ g.Flow u a.1) := by
    intro g a u canonical live
    rw [← live.entered]
    exact ⟨canonical.tidy.entered u a.1 (by simp [live.core]),
      fun flow => (canonical.tidy.flow u a.1 flow).1⟩
  rw [mirrored likeness.canonical facing.live, mirrored likeness.canonical' facing.live']
  exact likeness.flow_iff _ _ _ _ same facing.same

theorem thenTarget_both :
    Both Eq (g.targetLabel? a.2.thenTarget) (g'.targetLabel? a'.2.thenTarget) :=
  likeness.targetLabel_both (likeness.parallels facing).thenTarget fun _ target =>
    likeness.canonical.wellFormed.live_target facing.live (.inl target)

theorem elseTarget_both :
    Both Eq (g.targetLabel? a.2.elseTarget) (g'.targetLabel? a'.2.elseTarget) :=
  likeness.targetLabel_both (likeness.parallels facing).elseTarget fun _ target =>
    likeness.canonical.wellFormed.live_target facing.live (.inr (.inl target))

theorem loopExit_both :
    Both Eq (g.targetLabel? a.2.loopExit) (g'.targetLabel? a'.2.loopExit) :=
  likeness.targetLabel_both (likeness.parallels facing).loopExit fun _ target =>
    likeness.canonical.wellFormed.live_target facing.live (.inr (.inr target))

theorem neighbours_both : Both Eq (Render.neighbours g a.2) (Render.neighbours g' a'.2) := by
  refine (likeness.predecessors_both facing).bind ?_
  rintro predecessors _ rfl
  refine (likeness.successors_both facing).bind ?_
  rintro successors _ rfl
  exact .pure rfl

end Facing

/-! ## Printing around the fragments -/

section Facing

variable (facing : Facing R g g' a a')

include facing

/-- Every live block has a label. -/
theorem labelled : ∃ label, g.labelOf? a.1 a.2 = some label := by
  unfold labelOf?
  cases kind : a.2.kind with
  | entry | exit => exact ⟨_, rfl⟩
  | body =>
    have shown := (likeness.canonical.wellFormed.displayed a.1).2 ⟨a.2, facing.live, kind⟩
    obtain ⟨i, number⟩ := Option.isSome_iff_exists.1 shown
    obtain ⟨n, id⟩ := Block.id_of_alive facing.live.2 kind
    rw [id, number]
    exact ⟨_, rfl⟩

theorem bodyText_both (lines : a.2.lines = a'.2.lines) :
    Both Eq (Render.bodyText g a.2) (Render.bodyText g' a'.2) := by
  refine (likeness.thenTarget_both facing).bind ?_
  rintro thenLabel _ rfl
  refine (likeness.loopExit_both facing).bind ?_
  rintro exitLabel _ rfl
  rw [lines]
  cases thenLabel with
  | none => cases exitLabel <;> exact .pure rfl
  | some thenLabel =>
    refine (likeness.elseTarget_both facing).bind ?_
    rintro elseLabel _ rfl
    exact .pure rfl

/-- What is added to the text of a block is the same for both. -/
theorem stanza_both {P : String → String → Prop}
    (body : Both P (Render.bodyText g a.2) (Render.bodyText g' a'.2)) :
    Both (fun t t' => ∃ before after s s', P s s' ∧ t = before ++ s ++ after ∧
      t' = before ++ s' ++ after) (Render.stanza g a.1 a.2) (Render.stanza g' a'.1 a'.2) := by
  obtain ⟨label, known⟩ := likeness.labelled facing
  unfold Render.stanza
  rw [← likeness.label_eq facing, known]
  refine body.bind fun s s' related => ?_
  refine (likeness.neighbours_both facing).bind ?_
  rintro neighbours _ rfl
  refine .pure ⟨"@" ++ label ++ " \x7b\n", "\x7d\n" ++ neighbours, s, s', related, ?_, ?_⟩
  · simp [String.append_assoc]
  · simp [String.append_assoc]

/-- The records of two blocks differ in the fragments only. -/
theorem blockRecord_both :
    Both (fun r r' => ∃ b : BlockRecord, r = some { b with lines := a.2.lines } ∧
      r' = some { b with lines := a'.2.lines })
      (g.blockRecord? a.1 a.2) (g'.blockRecord? a'.1 a'.2) := by
  obtain ⟨label, known⟩ := likeness.labelled facing
  unfold blockRecord?
  rw [← likeness.label_eq facing, known]
  refine (likeness.predecessors_both facing).bind ?_
  rintro predecessors _ rfl
  refine (likeness.successors_both facing).bind ?_
  rintro successors _ rfl
  refine (likeness.thenTarget_both facing).bind ?_
  rintro thenTarget _ rfl
  refine (likeness.elseTarget_both facing).bind ?_
  rintro elseTarget _ rfl
  refine (likeness.loopExit_both facing).bind ?_
  rintro loopExit _ rfl
  exact .pure
    ⟨⟨label, a.2.lines, predecessors, successors, thenTarget, elseTarget, loopExit⟩, rfl, rfl⟩

end Facing

theorem stanza_even (even : Even R g g' a a') :
    Both Eq (Render.stanza g a.1 a.2) (Render.stanza g' a'.1 a'.2) := by
  have body := likeness.bodyText_both even.1 even.2
  obtain ⟨t, t', run, run', before, after, s, s', rfl, eq, eq'⟩ := likeness.stanza_both even.1 body
  exact ⟨t, t', run, run', eq.trans eq'.symm⟩

theorem blockRecord_even (even : Even R g g' a a') :
    Both Eq (g.blockRecord? a.1 a.2) (g'.blockRecord? a'.1 a'.2) := by
  obtain ⟨r, r', run, run', b, eq, eq'⟩ := likeness.blockRecord_both even.1
  exact ⟨r, r', run, run', by rw [eq, eq', even.2]⟩

theorem entryStanza_both : Both Eq (Render.entryStanza g) (Render.entryStanza g') := by
  obtain ⟨x, x', first⟩ := likeness.entry_facing
  refine first.find.bind ?_
  rintro _ _ ⟨rfl, rfl⟩
  rw [likeness.name, likeness.returnType, likeness.parameters]
  refine (likeness.neighbours_both first).bind ?_
  rintro neighbours _ rfl
  exact .pure rfl

/-- Neither the entries nor the exits hold anything. -/
theorem entry_even (first : Facing R g g' (Graph.entry, x) (Graph.entry, x')) :
    Even R g g' (Graph.entry, x) (Graph.entry, x') := by
  obtain ⟨next, known⟩ := likeness.canonical.tidy.entry
  obtain ⟨next', known'⟩ := likeness.canonical'.tidy.entry
  have empty : x.lines = [] :=
    congrArg Block.lines (Option.some.inj (first.live.core.symm.trans known))
  have empty' : x'.lines = [] :=
    congrArg Block.lines (Option.some.inj (first.live'.core.symm.trans known'))
  exact ⟨first, empty.trans empty'.symm⟩

theorem exit_even (last : Facing R g g' (Graph.exit, y) (Graph.exit, y')) :
    Even R g g' (Graph.exit, y) (Graph.exit, y') := by
  have empty : y.lines = [] :=
    congrArg Block.lines (Option.some.inj (last.live.core.symm.trans likeness.canonical.tidy.exit))
  have empty' : y'.lines = [] :=
    congrArg Block.lines
      (Option.some.inj (last.live'.core.symm.trans likeness.canonical'.tidy.exit))
  exact ⟨last, empty.trans empty'.symm⟩

/-- The texts of the graphs are related if those of the stanzas in between are. -/
theorem graphText_both {Q : List (Nat × Block) → List (Nat × Block) → Prop}
    {P : String → String → Prop} (alive : Both Q g.alive g'.alive)
    (middle : ∀ l l', Q l l' → Both (fun ts ts' => P (String.join ts) (String.join ts'))
      (l.mapM fun a => Render.stanza g a.1 a.2) (l'.mapM fun a => Render.stanza g' a.1 a.2))
    (frame : ∀ before after t t', P t t' → P (before ++ t ++ after) (before ++ t' ++ after)) :
    Both P (Render.graphText g) (Render.graphText g') := by
  obtain ⟨y, y', last⟩ := likeness.exit_facing
  simp only [Render.graphText, likeness.phase, likeness.phase', ne_eq, not_true_eq_false, if_false]
  refine likeness.entryStanza_both.bind ?_
  rintro first _ rfl
  refine alive.bind fun l l' related => ?_
  refine (middle l l' related).bind fun ts ts' alike => ?_
  refine last.find.bind ?_
  rintro _ _ ⟨rfl, rfl⟩
  refine (likeness.stanza_even (likeness.exit_even last)).bind ?_
  rintro text _ rfl
  exact .pure (frame first _ _ _ alike)

theorem record_both {Q : List (Nat × Block) → List (Nat × Block) → Prop}
    {P : List (Option BlockRecord) → List (Option BlockRecord) → Prop}
    (printed : Both Q g.printed g'.printed)
    (each : ∀ l l', Q l l' → Both P (l.mapM fun a => g.blockRecord? a.1 a.2)
      (l'.mapM fun a => g'.blockRecord? a.1 a.2)) :
    Both (fun r r' => ∃ bs bs', P bs bs' ∧ r.blocks = bs.filterMap id ∧
      r' = { r with blocks := bs'.filterMap id }) g.record g'.record := by
  refine printed.bind fun l l' related => ?_
  refine (each l l' related).bind fun bs bs' alike => ?_
  rw [likeness.name, likeness.returnType, likeness.parameters]
  exact .pure ⟨bs, bs', alike, rfl, rfl⟩

section Even

variable (even : Both (List.Forall₂ (Even R g g')) g.alive g'.alive)

include even

/-- Graphs that look alike are printed alike if their blocks hold the same fragments. -/
theorem graphText_even : Both Eq (Render.graphText g) (Render.graphText g') := by
  apply likeness.graphText_both even
  · intro l l' related
    obtain ⟨ts, ts', run, run', same⟩ := Both.mapM_eq related fun a a' => likeness.stanza_even
    exact ⟨ts, ts', run, run', congrArg String.join same⟩
  · intro before after t t' same
    rw [same]

theorem record_even : Both Eq g.record g'.record := by
  have printed : Both (List.Forall₂ (Even R g g')) g.printed g'.printed := by
    apply likeness.printed_both even
    intro x x' y y' l l' first last middle
    exact .cons (likeness.entry_even first)
      (List.rel_append middle (.cons (likeness.exit_even last) .nil))
  obtain ⟨r, r', run, run', bs, bs', rfl, eq, rfl⟩ :=
    likeness.record_both printed fun l l' related =>
      Both.mapM_eq related fun a a' => likeness.blockRecord_even
  exact ⟨r, _, run, run', by rw [← eq]⟩

end Even

end Likeness

end Graph

end Flowgraph
