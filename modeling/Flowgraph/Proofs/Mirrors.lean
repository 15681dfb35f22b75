import Flowgraph.Proofs.Condensed
import Mathlib.Logic.Relator

/-!
# Outlines that mirror each other

Two outlines mirror each other if their blocks correspond and lead to corresponding blocks.  Then
their straight lines correspond as well, and so do the blocks of the graphs that show them.
-/

namespace Flowgraph

open Relator Relation

/-- The entry and the exit are known by their handles, which correspond to themselves only. -/
theorem BlockKind.ofHandle_eq_of_rel {R : Nat → Nat → Prop} {h h' : Nat} (unique : BiUnique R)
    (entry : R Graph.entry Graph.entry) (exit : R Graph.exit Graph.exit) (same : R h h') :
    BlockKind.ofHandle h = BlockKind.ofHandle h' := by
  have first : h = Graph.entry ↔ h' = Graph.entry := rel_eq unique same entry
  have last : h = Graph.exit ↔ h' = Graph.exit := rel_eq unique same exit
  match h, h' with
  | 0, 0 | 1, 1 | _ + 2, _ + 2 => rfl
  | 0, _ + 1 | _ + 1, 0 => simp [Graph.entry] at first
  | 1, _ + 2 | _ + 2, 1 => simp [Graph.exit] at last

namespace Outline

variable {R : Nat → Nat → Prop} {O O' : Outline} {g g' : Graph} {h h' k k' next u v u' v' : Nat}
  {e e' : Ending Nat} {lines lines' : List String}

/-- The blocks that stay correspond and lead to corresponding blocks. -/
structure Mirrors (R : Nat → Nat → Prop) (O O' : Outline) : Prop where
  unique : BiUnique R
  entry : R Graph.entry Graph.entry
  exit : R Graph.exit Graph.exit
  stays : ∀ h h', R h h' → (O.stays h ↔ O'.stays h')
  partner : ∀ h, O.stays h → ∃ h', R h h'
  partner' : ∀ h', O'.stays h' → ∃ h, R h h'
  settles : ∀ h h' e, R h h' → O.settles h e → ∃ e', O'.settles h' e' ∧ e.Rel R e'
  settles' : ∀ h h' e', R h h' → O'.settles h' e' → ∃ e, O.settles h e ∧ e.Rel R e'

/-- It is enough that what leads to some blocks in the first outline leads to corresponding blocks
in the second, because every block leads somewhere. -/
theorem Mirrors.of_settles (unique : BiUnique R) (entry : R Graph.entry Graph.entry)
    (exit : R Graph.exit Graph.exit) (stays : ∀ h h', R h h' → (O.stays h ↔ O'.stays h'))
    (partner : ∀ h, O.stays h → ∃ h', R h h') (partner' : ∀ h', O'.stays h' → ∃ h, R h h')
    (settles : ∀ h h' e, R h h' → O.settles h e → ∃ e', O'.settles h' e' ∧ e.Rel R e')
    (total : ∀ h, O.stays h → h ≠ Graph.exit → ∃ e, O.settles h e) (proper : O'.Proper) :
    Mirrors R O O' where
  unique := unique
  entry := entry
  exit := exit
  stays := stays
  partner := partner
  partner' := partner'
  settles := settles
  settles' h h' e' same settles' := by
    have other : h ≠ Graph.exit := by
      rintro rfl
      obtain rfl := unique.right same exit
      exact proper.final e' settles'
    obtain ⟨e, here⟩ := total h ((stays h h' same).2 (O'.settled h' e' settles')) other
    obtain ⟨e'', settles'', rel⟩ := settles h h' e same here
    obtain rfl := proper.unique h' e' e'' settles' settles''
    exact ⟨e, here, rel⟩

namespace Mirrors

variable (mirrors : Mirrors R O O')

include mirrors

theorem swap : Mirrors (fun a b => R b a) O' O where
  unique := ⟨fun _ _ _ left right => mirrors.unique.right left right,
    fun _ _ _ left right => mirrors.unique.left left right⟩
  entry := mirrors.entry
  exit := mirrors.exit
  stays h h' same := (mirrors.stays h' h same).symm
  partner := mirrors.partner'
  partner' := mirrors.partner
  settles h h' e same settles := by
    obtain ⟨e', settles', rel⟩ := mirrors.settles' h' h e same settles
    exact ⟨e', settles', rel.swap fun _ _ => id⟩
  settles' h h' e same settles := by
    obtain ⟨e', settles', rel⟩ := mirrors.settles h' h e same settles
    exact ⟨e', settles', rel.swap fun _ _ => id⟩

theorem feeds (same : R u u') (feeds : O.Feeds u v) : ∃ v', R v v' ∧ O'.Feeds u' v' := by
  obtain ⟨e, settles, target⟩ := feeds
  obtain ⟨e', settles', rel⟩ := mirrors.settles u u' e same settles
  obtain ⟨v', target', onward⟩ := rel.targets mirrors.exit target
  exact ⟨v', onward, e', settles', target'⟩

/-- An edge is found again, read in the other direction. -/
theorem feeds_back (same : R v v') (feeds : O'.Feeds u' v') : ∃ u, R u u' ∧ O.Feeds u v := by
  obtain ⟨e', settles', -⟩ := id feeds
  -- The source stays, so it has a partner, and the edge is that of the partner.
  obtain ⟨u, source⟩ := mirrors.partner' u' (O'.settled u' e' settles')
  obtain ⟨w, target, feeds'⟩ := mirrors.swap.feeds source feeds
  obtain rfl := mirrors.unique.left same target
  exact ⟨u, source, feeds'⟩

theorem joined (same : R h h') (joined : O.Joined h next) :
    ∃ next', R next next' ∧ O'.Joined h' next' := by
  obtain ⟨next', behind, feeds'⟩ := mirrors.feeds same joined.feeds
  refine ⟨next', behind, ?_, fun v' => ⟨fun feeds => ?_, ?_⟩, ?_, ?_, fun u' feeds => ?_⟩
  · exact mt (rel_eq mirrors.unique same mirrors.entry).2 joined.inner
  · obtain ⟨v, target, feeds⟩ := mirrors.swap.feeds same feeds
    exact (rel_eq mirrors.unique target behind).1 ((joined.sole v).1 feeds)
  · intro eq
    exact eq ▸ feeds'
  · exact mt (rel_eq mirrors.unique behind mirrors.exit).2 joined.notExit
  · exact mt (rel_eq mirrors.unique behind same).2 joined.other
  · obtain ⟨u, source, feeds⟩ := mirrors.feeds_back behind feeds
    exact (rel_eq mirrors.unique source same).1 (joined.alone u feeds)

theorem joined_back (same : R h h') (joined : O'.Joined u' h') : ∃ u, R u u' ∧ O.Joined u h := by
  obtain ⟨u, source, -⟩ := mirrors.feeds_back same joined.feeds
  obtain ⟨k, target, joined'⟩ := mirrors.swap.joined source joined
  obtain rfl := mirrors.unique.left same target
  exact ⟨u, source, joined'⟩

theorem head_iff (same : R h h') : O.Head h ↔ O'.Head h' := by
  constructor
  · intro head
    refine ⟨(mirrors.stays h h' same).1 head.stays, fun u' joined => ?_⟩
    obtain ⟨u, -, joined'⟩ := mirrors.joined_back same joined
    exact head.first u joined'
  · intro head
    refine ⟨(mirrors.stays h h' same).2 head.stays, fun u joined => ?_⟩
    obtain ⟨u', -, joined'⟩ := mirrors.swap.joined_back same joined
    exact head.first u' joined'

/-- A block leads to one ending only, because the corresponding block does. -/
theorem settles_unique {f : Ending Nat} (proper : O'.Proper) (same : R h h')
    (settles : O.settles h e)
    (settles' : O.settles h f) : e = f := by
  obtain ⟨e', onward, rel⟩ := mirrors.settles h h' e same settles
  obtain ⟨f', onward', rel'⟩ := mirrors.settles h h' f same settles'
  obtain rfl := proper.unique h' e' f' onward onward'
  have back := rel.swap (S := fun b a => R a b) fun _ _ => id
  have back' := rel'.swap (S := fun b a => R a b) fun _ _ => id
  exact back.unique back' fun _ _ _ left right => mirrors.unique.left left right

/-- Corresponding lines hold related fragments, if the relation `L` allows for every block of them.
It is told where a line begins and how it ends. -/
theorem collects {L : Nat → List String → List String → Ending Nat → Prop}
    (last : ∀ h h' e, R h h' → O.settles h e → L h (O.lines h) (O'.lines h') e)
    (link : ∀ h h' next l l' e, R h h' → O.Joined h next → L next l l' e →
      L h (O.lines h ++ l) (O'.lines h' ++ l') e)
    (same : R h h') (collects : O.Collects h lines e) :
    ∃ lines' e', O'.Collects h' lines' e' ∧ e.Rel R e' ∧ L h lines lines' e := by
  -- The lines are followed side by side; a join on one side is a join on the other.
  induction collects generalizing h' with
  | @last h e settles alone =>
    obtain ⟨e', settles', rel⟩ := mirrors.settles h h' e same settles
    refine ⟨O'.lines h', e', .last settles' fun next joined => ?_, rel, last h h' e same settles⟩
    obtain ⟨next', -, joined'⟩ := mirrors.swap.joined same joined
    exact alone next' joined'
  | @link h next lines e joined _ ih =>
    obtain ⟨next', behind, joined'⟩ := mirrors.joined same joined
    obtain ⟨lines', e', collects', rel, related⟩ := ih behind
    exact ⟨_, e', .link joined' collects', rel, link h h' next lines lines' e same joined related⟩

/-! ## Graphs that show the outlines -/

theorem alive_iff (shown : O.Shown g) (shown' : O'.Shown g') (same : R h h') :
    (g.live? h).isSome ↔ (g'.live? h').isSome := by
  rw [shown.alive, shown'.alive]
  exact mirrors.head_iff same

theorem blocks {L : Nat → List String → List String → Ending Nat → Prop} (proper : O'.Proper)
    (shown : O.Shown g) (shown' : O'.Shown g')
    (last : ∀ h h' e, R h h' → O.settles h e → L h (O.lines h) (O'.lines h') e)
    (link : ∀ h h' next l l' e, R h h' → O.Joined h next → L next l l' e →
      L h (O.lines h ++ l) (O'.lines h' ++ l') e)
    (same : R h h') {x x' : Block} (known : g.live? h = some x) (known' : g'.live? h' = some x')
    (other : h ≠ Graph.exit) :
    ∃ e e', x.Ends e ∧ x'.Ends e' ∧ e.Rel R e' ∧ L h x.lines x'.lines e := by
  have other' : h' ≠ Graph.exit := mt (rel_eq mirrors.unique same mirrors.exit).2 other
  obtain ⟨e, ends, collects⟩ := shown.blocks h x known other
  obtain ⟨e', ends', collects'⟩ := shown'.blocks h' x' known' other'
  obtain ⟨lines', e'', collects'', rel, related⟩ := mirrors.collects last link same collects
  obtain ⟨rfl, rfl⟩ := collects''.unique proper collects'
  exact ⟨e, e'', ends, ends', rel, related⟩

end Mirrors

end Outline

end Flowgraph
