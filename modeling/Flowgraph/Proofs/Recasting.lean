import Flowgraph.Proofs.Counterparts
import Flowgraph.Proofs.ForLoops
import Flowgraph.Proofs.Rejoining

/-!
# What the sweep leaves of the two forms of a loop

The blocks that are left of the graph with the `for` loop and of the one with the `while` loop
correspond, but for the update.  If control gets to the update, its block follows the one in which
the body of the loop ends, and the two are the same as a single block of the other graph.
-/

namespace Flowgraph

open Relator

/-- A return is an edge to the exit in both of two related endings. -/
theorem Ending.Rel.resolved {R : Nat → Nat → Prop} {e e' : Ending Nat} (rel : e.Rel R e')
    (stops : R Graph.exit Graph.exit) : e.resolved.Rel R e'.resolved := by
  cases rel with
  | goes same => exact .goes same
  | returns => exact .goes stops
  | branches same same' => exact .branches same same'
  | loops same same' => exact .loops same same'

/-- Lists that are related to two lists in a row come in two parts. -/
theorem forall₂_parts {α β : Type} {P : α → β → Prop} {l₁ l₂ : List α} {t : List β}
    (related : List.Forall₂ P (l₁ ++ l₂) t) :
    ∃ t₁ t₂, t = t₁ ++ t₂ ∧ List.Forall₂ P l₁ t₁ ∧ List.Forall₂ P l₂ t₂ :=
  ⟨t.take l₁.length, t.drop l₁.length, (List.take_append_drop _ t).symm,
    (List.forall₂_take_append t l₁ l₂ related.flip).flip,
    (List.forall₂_drop_append t l₁ l₂ related.flip).flip⟩

namespace Graph

variable {g g' g₁ g₁' : Graph} {f f' : SourceFunction} {pairs : List (Nat × Nat)} {a b : Nat × Nat}
  {header : Nat} {gap : Option Nat} {condition : List String} {h h' : Nat} {live live' : List Nat}
  {K : Nat → Prop}

/-- The blocks of a pair are the same, but for the fragments of the header. -/
def Restated (g g' : Graph) (condition : List String) (header : Nat) (pairs : List (Nat × Nat))
    (a : Nat × Nat) : Prop :=
  ∃ lines lines' e e', g.Has a.1 lines e ∧ g'.Has a.2 lines' e' ∧
    e.Rel (Option.Rel fun i i' => (i, i') ∈ pairs) e' ∧
    (lines = lines' ∨ a.1 = header ∧ lines = Fragment.forHeader condition ∧
      lines' = Fragment.whileHeader condition ∧ ∃ into past, e = .loops into past)

/-- The first graph has two blocks in a row where the second has one. -/
def Parted (g g' : Graph) (pairs : List (Nat × Nat)) (a : Nat × Nat) : Prop :=
  ∃ k k' q u, g.Has a.1 q (.goes (some (a.1 + 1))) ∧ g.Has (a.1 + 1) u (.goes (some k)) ∧
    g'.Has a.2 (q ++ u) (.goes (some k')) ∧ (k, k') ∈ pairs

theorem Recast.cases (recast : Recast g g' condition header gap pairs a) :
    Restated g g' condition header pairs a ∨ gap = some (a.1 + 1) ∧ Parted g g' pairs a := by
  cases recast with
  | same matched =>
    obtain ⟨lines, e, e', has, has', rel⟩ := matched
    exact .inl ⟨lines, lines, e, e', has, has', rel, .inl rfl⟩
  | header here loop loop' into past =>
    exact .inl ⟨_, _, _, _, loop, loop', .loops (.some into) (.some past),
      .inr ⟨here, rfl, rfl, _, _, rfl⟩⟩
  | update next ends back back' pair => exact .inr ⟨next, _, _, _, _, ends, back, back', pair⟩

/-- The handle of the block with the given number. -/
def handle (g : Graph) (i : Nat) : Nat := g.table[i]?.getD entry

theorem handle_of_named {i : Nat} (named : g.table[i]? = some h) : g.handle i = h := by
  simp [handle, named]

theorem named_handle {i : Nat} (known : i < g.table.length) : g.table[i]? = some (g.handle i) := by
  rw [handle_of_named (List.getElem?_eq_getElem known), List.getElem?_eq_getElem known]

section Swept

variable (draws : g.Draws f) (draws' : g'.Draws f') (swept : Swept g (Dropped g live) g₁)
  (swept' : Swept g' (Dropped g' live') g₁')

include draws draws' swept swept'

/-- The blocks of a pair that was restated lead to corresponding blocks. -/
theorem Restated.agrees (restated : Restated g g' condition header pairs a)
    (inside : a.1 ∈ 0 :: live) (inside' : a.2 ∈ 0 :: live') (named : g.table[a.1]? = some h)
    (named' : g'.table[a.2]? = some h') :
    Agrees g₁ g₁' (Corresponds g g' pairs) h h' ∧
      Reworded g₁ (g.handle header) (Fragment.forHeader condition) (Fragment.whileHeader condition) h
        (g₁.text h) (g₁'.text h') := by
  obtain ⟨lines, lines', e, e', has, has', rel, same⟩ := restated
  obtain ⟨k, known, places⟩ := swept.live_of_has draws inside named has
  obtain ⟨k', known', places'⟩ := swept'.live_of_has draws' inside' named' has'
  have ends : (k.block (some a.1) lines).Ends k.resolved := by
    apply Ending.block_ends
    intro body after eq
    exact (draws.loop_apart named has (eq ▸ places)).1
  have ends' : (k'.block (some a.2) lines').Ends k'.resolved := by
    apply Ending.block_ends
    intro body after eq
    exact (draws'.loop_apart named' has' (eq ▸ places')).1
  constructor
  · have related := corresponds_of_places places rel places'
    refine ⟨_, _, _, _, known, known', ends, ends', ?_⟩
    exact related.resolved (.inr ⟨none, none, .none, rfl, rfl⟩)
  · rw [text_of_live known, text_of_live known']
    obtain same | ⟨here, old, new, into, past, eq⟩ := same
    · exact .inl same
    · subst eq
      refine .inr ⟨(handle_of_named (here ▸ named)).symm, old, new, ?_⟩
      cases places with
      | loops => exact ⟨_, _, _, known, rfl, ends⟩

end Swept

/-- A block that is left and whose number is in a pair has a counterpart. -/
theorem Swept.partner {x : Block} (draws : g.Draws f) (reached' : g'.Reached (pairs.map Prod.snd))
    (swept : Swept g (Dropped g live) g₁) (known : g₁.live? h = some x)
    (paired : ∀ i ∈ 0 :: live, g.table[i]? = some h → ∃ b ∈ (0, 0) :: pairs, b.1 = i) :
    ∃ h', Corresponds g g' pairs h h' := by
  obtain ⟨rfl, -⟩ | ⟨rfl, -⟩ | ⟨i, _, _, _, inside, named, -⟩ := swept.live_cases draws known
  · exact ⟨entry, .inl ⟨rfl, rfl⟩⟩
  · exact ⟨Graph.exit, .inr ⟨none, none, .none, rfl, rfl⟩⟩
  · obtain ⟨b, pair, rfl⟩ := paired i inside named
    have known' := reached'.below b.2 (List.mem_map_of_mem (f := Prod.snd) pair)
    exact ⟨_, .inr ⟨some b.1, some b.2, .some pair, named, named_handle known'⟩⟩

section Pairs

variable (draws : g.Draws f) (draws' : g'.Draws f')
  (climbs : Climbs K 1 g.table.length 1 g'.table.length pairs)
  (reached : g.Reached live) (reached' : g'.Reached (pairs.map Prod.snd))
  (swept : Swept g (Dropped g live) g₁) (swept' : Swept g' (Dropped g' (pairs.map Prod.snd)) g₁')

include draws draws' climbs reached reached' swept swept'

/-- The blocks that the sweep leaves correspond if those of the pairs were restated. -/
theorem Swept.likens {odd : Nat → Prop} (inside : ∀ a ∈ (0, 0) :: pairs, a.1 ∈ 0 :: live)
    (even : ∀ a ∈ (0, 0) :: pairs, ∀ h, g.table[a.1]? = some h → ¬ odd h →
      Restated g g' condition header pairs a) :
    Likens (Corresponds g g' pairs) odd (g.handle header) (Fragment.forHeader condition)
      (Fragment.whileHeader condition) g₁ g₁' := by
  have inside' : ∀ a ∈ (0, 0) :: pairs, a.2 ∈ 0 :: pairs.map Prod.snd := fun a member =>
    List.mem_map_of_mem (f := Prod.snd) member
  have stops : Corresponds g g' pairs Graph.exit Graph.exit := .inr ⟨none, none, .none, rfl, rfl⟩
  refine ⟨swept.elidable draws reached, swept'.elidable draws' reached',
    climbs.corresponds_unique draws draws', .inl ⟨rfl, rfl⟩, stops, ?_, ?_, ?_, ?_, ?_⟩
  · intro h h' same plain other
    obtain ⟨rfl, rfl⟩ | ⟨p, p', rel, place, place'⟩ := same
    · refine ⟨_, _, _, _, swept.live_entry draws, swept'.live_entry draws', .goes rfl rfl rfl rfl,
        .goes rfl rfl rfl rfl, .goes ?_⟩
      exact .inr ⟨some 0, some 0, .some List.mem_cons_self, draws.sound.first, draws'.sound.first⟩
    · cases rel with
      | none => exact absurd place other
      | some member =>
        exact ((even _ member h place plain).agrees draws draws' swept swept' (inside _ member)
          (inside' _ member) place place').1
  · intro h h' same plain
    obtain ⟨rfl, rfl⟩ | ⟨p, p', rel, place, place'⟩ := same
    · rw [text_of_live (swept.live_entry draws), text_of_live (swept'.live_entry draws')]
      exact .inl rfl
    · cases rel with
      | none =>
        rw [show h = Graph.exit from place, show h' = Graph.exit from place',
          text_of_live (swept.live_exit draws), text_of_live (swept'.live_exit draws')]
        exact .inl rfl
      | some member =>
        exact ((even _ member h place plain).agrees draws draws' swept swept' (inside _ member)
          (inside' _ member) place place').2
  · simp [Fragment.forHeader]
  · simp [Fragment.whileHeader]
  · intro h' stays
    obtain ⟨x, known, -⟩ := stays
    obtain ⟨rfl, -⟩ | ⟨rfl, -⟩ | ⟨i', _, _, _, member, named', -⟩ := swept'.live_cases draws' known
    · exact ⟨entry, .inl ⟨rfl, rfl⟩⟩
    · exact ⟨Graph.exit, stops⟩
    · obtain ⟨a, pair, rfl⟩ := List.mem_map.1 (show i' ∈ ((0, 0) :: pairs).map Prod.snd from member)
      have below := reached.below a.1 (inside a pair)
      exact ⟨_, .inr ⟨some a.1, some a.2, .some pair, named_handle below, named'⟩⟩

end Pairs

section Recast

variable (draws : g.Draws f) (draws' : g'.Draws f')
  (climbs : Climbs (gap ≠ some ·) 1 g.table.length 1 g'.table.length pairs)
  (paired : Paired g g' (Recast g g' condition header gap) (0, 0) pairs none)

include climbs paired

/-- Control gets to the second blocks of the pairs, and to no others. -/
theorem reached_recast_snd (draws' : g'.Draws f') : g'.Reached (pairs.map Prod.snd) := by
  apply climbs.reached_swap draws' paired.entered
  intro a member v' arc
  obtain restated | ⟨-, k, k', q, u, ends, back, back', pair⟩ :=
    (paired.matched a member (by simp)).cases
  · obtain ⟨lines, lines', e, e', has, has', rel, -⟩ := restated
    exact has'.into_pair_swap draws'.sound rel arc
  · rw [back'.arc_iff draws'.sound, Ending.targets, List.mem_singleton] at arc
    obtain rfl := Option.some.inj arc
    exact ⟨k, pair⟩

include draws

/-- If no block was parted, control gets to the first blocks of the pairs, and to no others. -/
theorem reached_recast_fst
    (whole : ∀ a ∈ (0, 0) :: pairs, Restated g g' condition header pairs a) :
    g.Reached (pairs.map Prod.fst) := by
  apply climbs.reached draws paired.entered
  intro a member v arc
  obtain ⟨lines, lines', e, e', has, has', rel, -⟩ := whole a member
  exact has.into_pair draws.sound rel arc

end Recast

/-! ## The block that was parted -/

/-- The first numbers of the pairs, with another one behind that of the pair `a`. -/
structure Wedged (pairs : List (Nat × Nat)) (a : Nat × Nat) (before after : List (Nat × Nat))
    (live : List Nat) : Prop where
  pairs : (0, 0) :: pairs = before ++ a :: after
  live : 0 :: live = before.map Prod.fst ++ a.1 :: (a.1 + 1) :: after.map Prod.fst

theorem exists_wedged (member : a ∈ (0, 0) :: pairs) :
    ∃ before after live, Wedged pairs a before after live := by
  obtain ⟨before, after, eq⟩ := List.append_of_mem member
  cases before with
  | nil =>
    obtain ⟨rfl, -⟩ := List.cons.inj eq
    exact ⟨[], after, 1 :: after.map Prod.fst, eq, rfl⟩
  | cons b before =>
    obtain ⟨rfl, -⟩ := List.cons.inj eq
    exact ⟨_, after, _, eq, rfl⟩

namespace Wedged

variable {before after : List (Nat × Nat)} (wedged : Wedged pairs a before after live)

include wedged

theorem mem_iff {i : Nat} : i ∈ 0 :: live ↔ (∃ b ∈ (0, 0) :: pairs, b.1 = i) ∨ i = a.1 + 1 := by
  rw [wedged.live, wedged.pairs]
  simp only [List.mem_append, List.mem_cons, List.mem_map]
  grind

theorem member : a ∈ (0, 0) :: pairs := by
  simp [wedged.pairs]

omit wedged in
/-- The new number is not in a pair. -/
theorem fresh {m m' v' : Nat} (climbs : Climbs (gap ≠ some ·) 1 m 1 m' pairs)
    (next : gap = some (a.1 + 1)) : (a.1 + 1, v') ∉ (0, 0) :: pairs := by
  intro member
  obtain eq | member := List.mem_cons.1 member
  · cases eq
  · exact climbs.kept _ member next

theorem sorted {m m' : Nat} (climbs : Climbs (gap ≠ some ·) 1 m 1 m' pairs)
    (next : gap = some (a.1 + 1)) : (0 :: live).Pairwise (· < ·) := by
  have rising := climbs.sorted_all
  have apart : ∀ b ∈ after, a.1 + 1 ≠ b.1 := by
    rintro ⟨i, i'⟩ member rfl
    have inside : (a.1 + 1, i') ∈ (0, 0) :: pairs := by simp [wedged.pairs, member]
    exact fresh climbs next inside
  rw [wedged.pairs, List.pairwise_append, List.pairwise_cons] at rising
  obtain ⟨first, ⟨above, second⟩, between⟩ := rising
  rw [wedged.live, List.pairwise_append, List.pairwise_cons, List.pairwise_cons]
  simp only [List.mem_map, List.mem_cons, List.pairwise_map]
  refine ⟨first.imp And.left, ⟨?_, ?_, second.imp And.left⟩, ?_⟩
  · rintro _ (rfl | ⟨b, member, rfl⟩)
    · exact Nat.lt_succ_self a.1
    · exact (above b member).1
  · rintro _ ⟨b, member, rfl⟩
    have := (above b member).1
    have := apart b member
    omega
  · rintro _ ⟨b, left, rfl⟩ _ (rfl | rfl | ⟨c, right, rfl⟩)
    · exact (between b left a List.mem_cons_self).1
    · have := (between b left a List.mem_cons_self).1
      omega
    · exact (between b left c (List.mem_cons_of_mem a right)).1

/-- The blocks that the sweep leaves stand in the same order in both graphs, with the two that were
parted in the place of one. -/
theorem rolls (draws : g.Draws f) (draws' : g'.Draws f') (reached : g.Reached live)
    (reached' : g'.Reached (pairs.map Prod.snd)) (swept : Swept g (Dropped g live) g₁)
    (swept' : Swept g' (Dropped g' (pairs.map Prod.snd)) g₁') :
    ∃ l r l' r', g₁.roll = l ++ g.handle a.1 :: g.handle (a.1 + 1) :: r ∧
      g₁'.roll = l' ++ g'.handle a.2 :: r' ∧ List.Forall₂ (Corresponds g g' pairs) l l' ∧
      List.Forall₂ (Corresponds g g' pairs) r r' := by
  have roll := swept.roll draws reached
  have roll' := swept'.roll draws' reached'
  have second : 0 :: pairs.map Prod.snd = before.map Prod.snd ++ a.2 :: after.map Prod.snd := by
    simpa using congrArg (List.map Prod.snd) wedged.pairs
  rw [wedged.live] at roll
  rw [second] at roll'
  obtain ⟨l, t, eq, left, rest⟩ := forall₂_parts roll
  obtain ⟨l', t', eq', left', rest'⟩ := forall₂_parts roll'
  cases rest with
  | cons place rest =>
  cases rest with
  | cons place₂ right =>
  cases rest' with
  | cons place' right' =>
  rw [← handle_of_named place, ← handle_of_named place₂] at eq
  rw [← handle_of_named place'] at eq'
  -- What stands in the same place on both sides corresponds.
  have related : ∀ b ∈ (0, 0) :: pairs, ∀ h h', g.table[b.1]? = some h → g'.table[b.2]? = some h' →
      Corresponds g g' pairs h h' := fun b member h h' named named' =>
    .inr ⟨some b.1, some b.2, .some member, named, named'⟩
  rw [List.forall₂_map_left_iff] at left left' right right'
  refine ⟨l, _, l', _, eq, eq', ?_, ?_⟩
  · apply forall₂_join left left'
    intro b member
    exact related b (by simp [wedged.pairs, member])
  · apply forall₂_join right right'
    intro b member
    exact related b (by simp [wedged.pairs, member])

end Wedged

section Parted

variable {before after : List (Nat × Nat)} (draws : g.Draws f) (draws' : g'.Draws f')
  (climbs : Climbs (gap ≠ some ·) 1 g.table.length 1 g'.table.length pairs)
  (paired : Paired g g' (Recast g g' condition header gap) (0, 0) pairs none)
  (wedged : Wedged pairs a before after live) (next : gap = some (a.1 + 1))
  (parted : Parted g g' pairs a)

include climbs paired wedged next

/-- No other block was parted. -/
theorem restated_of_ne (member : b ∈ (0, 0) :: pairs) (other : b ≠ a) :
    Restated g g' condition header pairs b := by
  obtain restated | ⟨next', -⟩ := (paired.matched b member (by simp)).cases
  · exact restated
  · have eq : b.1 = a.1 := by simpa using (next'.symm.trans next)
    obtain ⟨i, i'⟩ := a
    obtain ⟨j, j'⟩ := b
    obtain rfl : j = i := eq
    exact absurd (congrArg (Prod.mk j) (climbs.biUnique.right member wedged.member)) other

include parted draws

theorem reached_wedged (within : a.1 + 1 < g.table.length) : g.Reached live := by
  have first : ∀ b ∈ (0, 0) :: pairs, b.1 ∈ 0 :: live := fun b member =>
    wedged.mem_iff.2 (.inl ⟨b, member, rfl⟩)
  obtain ⟨k, k', q, u, ends, back, back', pair⟩ := parted
  have later : ∀ i ∈ 0 :: live, i ≠ 0 → i ∈ live := fun i member other =>
    (List.mem_cons.1 member).resolve_left other
  have pairAt : ∀ v v', (v, v') ∈ pairs → v ∈ live := by
    intro v v' member
    have positive := (climbs.within _ member).1.1
    exact later v (first _ (List.mem_cons_of_mem _ member)) (by simp at positive; omega)
  -- The new number is entered from the one before it, and control goes on to the blocks of a pair.
  refine ⟨wedged.sorted climbs next, ?_, ?_, ?_⟩
  · intro i member
    obtain ⟨b, inside, rfl⟩ | rfl := wedged.mem_iff.1 member
    · obtain rfl | inside := List.mem_cons.1 inside
      · exact draws.length
      · exact (climbs.within b inside).1.2
    · exact within
  · intro i member
    obtain ⟨b, inside, rfl⟩ | rfl := wedged.mem_iff.1 (List.mem_cons_of_mem 0 member)
    · obtain rfl | inside := List.mem_cons.1 inside
      · have fresh := (List.pairwise_cons.1 (wedged.sorted climbs next)).1 0 member
        exact absurd fresh (Nat.lt_irrefl 0)
      · obtain ⟨c, source, less, arc, -⟩ := paired.entered b inside
        exact ⟨c.1, first c source, less.1, arc⟩
    · exact ⟨a.1, first a wedged.member, Nat.lt_succ_self a.1, q, _, ends,
        List.mem_singleton_self _⟩
  · intro i member v arc
    obtain ⟨b, inside, rfl⟩ | rfl := wedged.mem_iff.1 member
    · by_cases here : b = a
      · subst here
        rw [ends.arc_iff draws.sound, Ending.targets, List.mem_singleton] at arc
        obtain rfl := Option.some.inj arc
        exact later _ (wedged.mem_iff.2 (.inr rfl)) (Nat.succ_ne_zero b.1)
      · obtain ⟨lines, lines', e, e', has, has', rel, -⟩ :=
          restated_of_ne climbs paired wedged next inside here
        obtain ⟨v', target⟩ := has.into_pair draws.sound rel arc
        exact pairAt v v' target
    · rw [back.arc_iff draws.sound, Ending.targets, List.mem_singleton] at arc
      obtain rfl := Option.some.inj arc
      exact pairAt v k' pair

omit paired wedged parted in
/-- The second of the two blocks has no counterpart of its own. -/
theorem not_corresponds_wedge (within : a.1 + 1 < g.table.length) :
    ¬ Corresponds g g' pairs (g.handle (a.1 + 1)) h' := by
  intro same
  have second : g.Place (g.handle (a.1 + 1)) (some (a.1 + 1)) := named_handle within
  obtain ⟨eq, -⟩ | ⟨p, p', rel, place, -⟩ := same
  · exact draws.not_place_entry (eq ▸ second)
  · obtain rfl := place.unique draws.sound second
    cases rel with
    | some member => exact Wedged.fresh climbs next member

/-- Only the first of the two blocks leads to the second, whose number is in no pair. -/
theorem flow_wedge (within : a.1 + 1 < g.table.length) (swept : Swept g (Dropped g live) g₁)
    {v : Nat} (flow : g₁.Flow v (g.handle (a.1 + 1))) : v = g.handle a.1 := by
  have second : g.Place (g.handle (a.1 + 1)) (some (a.1 + 1)) := named_handle within
  obtain ⟨k, k', q, u, ends, back, back', pair⟩ := parted
  obtain ⟨x, known, -⟩ := id flow
  obtain ⟨rfl, -⟩ | ⟨rfl, -⟩ | ⟨i, _, _, _, member, named, -⟩ := swept.live_cases draws known
  · have eq := (swept.flow_entry draws).1 flow
    have := draws.sound.number_unique (eq ▸ second) draws.sound.first
    omega
  · exact absurd flow (swept.not_flow_exit draws)
  · obtain ⟨p, arc, target⟩ := (swept.flow_iff draws member named).1 flow
    obtain rfl := target.unique draws.sound second
    obtain ⟨b, inside, rfl⟩ | rfl := wedged.mem_iff.1 member
    · by_cases here : b = a
      · subst here
        exact (handle_of_named named).symm
      · obtain ⟨lines, lines', e, e', has, has', rel, -⟩ :=
          restated_of_ne climbs paired wedged next inside here
        obtain ⟨v', target⟩ := has.into_pair draws.sound rel arc
        exact absurd (List.mem_cons_of_mem _ target) (Wedged.fresh climbs next)
    · rw [back.arc_iff draws.sound, Ending.targets, List.mem_singleton] at arc
      obtain rfl := Option.some.inj arc
      exact absurd (List.mem_cons_of_mem _ pair) (Wedged.fresh climbs next)

include draws' in
/-- The two blocks of the parted pair are one block of the other graph; all others correspond. -/
theorem Swept.split (within : a.1 + 1 < g.table.length) (swept : Swept g (Dropped g live) g₁)
    (swept' : Swept g' (Dropped g' (pairs.map Prod.snd)) g₁') :
    Split (Corresponds g g' pairs) (g.handle header) (Fragment.forHeader condition)
      (Fragment.whileHeader condition) g₁ g₁' (g.handle a.1) (g.handle (a.1 + 1)) (g'.handle a.2) := by
  have reached := reached_wedged draws climbs paired wedged next parted within
  have reached' := reached_recast_snd climbs paired draws'
  have inside : ∀ b ∈ (0, 0) :: pairs, b.1 ∈ 0 :: live := fun b member =>
    wedged.mem_iff.2 (.inl ⟨b, member, rfl⟩)
  have inside' : a.2 ∈ 0 :: pairs.map Prod.snd :=
    List.mem_map_of_mem (f := Prod.snd) (l := (0, 0) :: pairs) wedged.member
  have first := named_handle (reached.below a.1 (inside a wedged.member))
  have second := named_handle within
  have both := named_handle (reached'.below a.2 inside')
  have likens : Likens (Corresponds g g' pairs) (· = g.handle a.1) (g.handle header)
      (Fragment.forHeader condition) (Fragment.whileHeader condition) g₁ g₁' := by
    apply Swept.likens draws draws' climbs reached reached' swept swept' inside
    intro b member h place plain
    apply restated_of_ne climbs paired wedged next member
    rintro rfl
    exact plain (handle_of_named place).symm
  have lone : ∀ h', ¬ Corresponds g g' pairs (g.handle (a.1 + 1)) h' := fun _ =>
    not_corresponds_wedge draws climbs next within
  have only := fun v => flow_wedge (v := v) draws climbs paired wedged next parted within swept
  obtain ⟨k, k', q, u, ends, back, back', pair⟩ := parted
  obtain ⟨e, here, places⟩ := swept.live_of_has draws (inside a wedged.member) first ends
  obtain ⟨e₂, here₂, places₂⟩ := swept.live_of_has draws (wedged.mem_iff.2 (.inr rfl)) second back
  obtain ⟨e', here', places'⟩ := swept'.live_of_has draws' inside' both back'
  cases places with
  | @goes v _ place =>
  cases places₂ with
  | @goes w _ place₂ =>
  cases places' with
  | @goes w' _ place' =>
  obtain rfl : v = g.handle (a.1 + 1) := Option.some.inj (place.symm.trans second)
  have rolls := wedged.rolls draws draws' reached reached' swept swept'
  refine ⟨likens, ?_, ?_, ?_, lone, only, ?_, rolls⟩
  · refine ⟨_, _, _, w, w', here, here₂, here', ⟨rfl, rfl, rfl⟩, .goes rfl rfl rfl rfl,
      .goes rfl rfl rfl rfl, .goes rfl rfl rfl rfl, ?_⟩
    exact .inr ⟨some k, some k', .some (List.mem_cons_of_mem _ pair), place₂, place'⟩
  · rw [text_of_live here, text_of_live here₂, text_of_live here']
    rfl
  · exact .inr ⟨some a.1, some a.2, .some wedged.member, first, both⟩
  · intro h stays other
    obtain ⟨x, known, -⟩ := stays
    apply swept.partner draws reached' known
    intro i member named
    exact (wedged.mem_iff.1 member).resolve_right fun eq =>
      other (handle_of_named (eq ▸ named)).symm

end Parted

open Statement in
/-- What the sweep leaves of the graphs with the two forms of the loop: the blocks correspond, once
the outline of the first graph was contracted if need be. -/
theorem Draws.recast (draws : g.Draws f) (draws' : g'.Draws f')
    (rewritten : Rewritten (AsWhile condition) f.body f'.body) :
    ∃ live live', g.Reached live ∧ g'.Reached live' ∧ ∀ g₁ g₁', Swept g (Dropped g live) g₁ →
      Swept g' (Dropped g' live') g₁' → ∃ R O header, Renders R O header
        (Fragment.forHeader condition) (Fragment.whileHeader condition) g₁ g₁' := by
  obtain ⟨Q, layout, leaves⟩ := draws.layout
  obtain ⟨Q', layout', leaves'⟩ := draws'.layout
  obtain ⟨header, gap, within, alike⟩ := alike_of_rewritten rewritten layout layout' (by simp)
  obtain ⟨pairs, climbs, paired⟩ := alike.whole lenient_recast leaves leaves'
  have reached' := reached_recast_snd climbs paired draws'
  -- If control gets to the update, one block of the second graph is two of the first.
  by_cases cut : ∃ a ∈ (0, 0) :: pairs, gap = some (a.1 + 1) ∧ Parted g g' pairs a
  · obtain ⟨a, member, next, parted⟩ := cut
    obtain ⟨before, after, live, wedged⟩ := exists_wedged member
    have less := (within _ next).2
    refine ⟨live, _, reached_wedged draws climbs paired wedged next parted less, reached', ?_⟩
    intro g₁ g₁' swept swept'
    have split := Swept.split draws draws' climbs paired wedged next parted less swept swept'
    obtain ⟨R, O, renders⟩ := split.renders
    exact ⟨R, O, _, renders⟩
  · have whole : ∀ a ∈ (0, 0) :: pairs, Restated g g' condition header pairs a := by
      intro a member
      obtain restated | ⟨next, parted⟩ := (paired.matched a member (by simp)).cases
      · exact restated
      · exact absurd ⟨a, member, next, parted⟩ cut
    have reached := reached_recast_fst draws climbs paired whole
    refine ⟨_, _, reached, reached', ?_⟩
    intro g₁ g₁' swept swept'
    have inside : ∀ a ∈ (0, 0) :: pairs, a.1 ∈ 0 :: pairs.map Prod.fst := fun a member =>
      List.mem_map_of_mem (f := Prod.fst) member
    have likens : Likens (Corresponds g g' pairs) (fun _ => False) (g.handle header)
        (Fragment.forHeader condition) (Fragment.whileHeader condition) g₁ g₁' := by
      apply Swept.likens draws draws' climbs reached reached' swept swept' inside
      intro a member _ _ _
      exact whole a member
    refine ⟨_, _, _, likens.renders ?_ (swept.rolls draws draws' reached reached' swept')⟩
    intro h stays
    obtain ⟨x, known, -⟩ := stays
    apply swept.partner draws reached' known
    intro i member _
    exact List.mem_map.1 (show i ∈ ((0, 0) :: pairs).map Prod.fst from member)

end Graph

end Flowgraph
