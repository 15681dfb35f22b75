import Flowgraph.Proofs.Live
import Flowgraph.Proofs.Removals

/-!
# Absorbing the next block

A block absorbs the only block that it leads to if it is also the only one that leads there.
Afterwards it ends as the absorbed block did.  The live part stays woven, nothing becomes unreachable,
and no other block can absorb more than before.
-/

namespace Flowgraph

open Relation

namespace Block

variable {x y : Block} {e : Ending Nat}

/-- A block ends as the block that it has absorbed. -/
theorem ends_merged : (x.merged y).Ends e ↔ y.Ends e :=
  ⟨fun ends => ends.congr rfl rfl rfl rfl, fun ends => ends.congr rfl rfl rfl rfl⟩

end Block

namespace Graph

variable {g g' : Graph} {h next k u v m : Nat} {x y : Block}

/-- Block `h` can absorb the block `next`. -/
structure Merges (g : Graph) (h next : Nat) : Prop where
  leads : ∃ x, g.live? h = some x ∧ x.kind = .body ∧ x.successors.toList = [next]
  inner : next ≠ exit
  other : next ≠ h
  alone : ∀ u, g.Flow u next → u = h

/-- The graph `g'` is `g` with the block `next` absorbed by `h`. -/
structure Absorbs (g : Graph) (h next : Nat) (g' : Graph) : Prop where
  merges : g.Merges h next
  absorbed : Absorbed g h next g'

theorem flow_iff_edge (known : (g.live? u).isSome) : g.Flow u v ↔ g.Edge u v := by
  obtain ⟨x, known⟩ := Option.isSome_iff_exists.1 known
  have core := (live?_eq_some.1 known).1
  simp [Flow, edge_iff_core, known, core]

namespace Merges

variable (woven : g.Woven) (merges : g.Merges h next)

include merges

theorem flow_iff : g.Flow h v ↔ v = next := by
  obtain ⟨x, known, -, leads⟩ := merges.leads
  simp [Flow, known, OrderedSet.mem_iff, leads]

include woven

/-- The block that can be absorbed is a live block with text. -/
theorem target : ∃ y, g.live? next = some y ∧ y.kind = .body := by
  obtain ⟨entered, alive⟩ := woven.linked.flow h next (merges.flow_iff.2 rfl)
  obtain ⟨y, known⟩ := Option.isSome_iff_exists.1 alive
  refine ⟨y, known, ?_⟩
  rw [woven.kinds next y (live?_eq_some.1 known).1, BlockKind.ofHandle_eq_body]
  have notEntry : next ≠ 0 := by
    rintro rfl
    exact woven.source h entered
  have notExit : next ≠ 1 := merges.inner
  omega

/-- Absorbing ends well. -/
theorem absorb_run : ∃ g', absorb h next g = .ok () g' ∧ Absorbs g h next g' := by
  obtain ⟨x, known, -, leads⟩ := id merges.leads
  obtain ⟨y, known', -⟩ := merges.target woven
  obtain ⟨g', run, absorbed⟩ := Graph.absorb_run (live?_eq_some.1 known).1 leads
    (live?_eq_some.1 known').1 merges.other fun v member => by
      obtain ⟨z, found⟩ := Option.isSome_iff_exists.1 (woven.linked.flow next v ⟨y, known', member⟩).2
      exact live_lt found
  exact ⟨g', run, merges, absorbed⟩

end Merges

namespace Absorbs

variable (woven : g.Woven) (absorbs : g.Absorbs h next g')

include absorbs

/-- No block was changed but the two. -/
theorem live_other (away : k ≠ h) (away' : k ≠ next) : g'.live? k = g.live? k := by
  rw [live?, absorbs.absorbed.away k away away', live?]

include woven

theorem live_next : g'.live? next = none := by
  obtain ⟨y, known, body⟩ := absorbs.merges.target woven
  rw [live?, absorbs.absorbed.removed, (live?_eq_some.1 known).1]
  simp [Option.filter, Block.isAlive, Block.retire, body]

omit woven in
theorem live_self (known : g.live? h = some x) (known' : g.live? next = some y) :
    g'.live? h = some (x.merged y) := by
  obtain ⟨core, alive⟩ := live?_eq_some.1 known
  exact live?_eq_some.2 ⟨absorbs.absorbed.grown x y core (live?_eq_some.1 known').1, alive⟩

theorem isSome_iff : (g'.live? k).isSome ↔ k ≠ next ∧ (g.live? k).isSome := by
  obtain ⟨x, known, -⟩ := absorbs.merges.leads
  obtain ⟨y, known', -⟩ := absorbs.merges.target woven
  by_cases same : k = next
  · simp [same, absorbs.live_next woven]
  · by_cases self : k = h
    · subst self
      simp [same, known, absorbs.live_self known known']
    · simp [same, absorbs.live_other self same]

theorem flow_self : g'.Flow h v ↔ g.Flow next v := by
  obtain ⟨x, known, -⟩ := absorbs.merges.leads
  obtain ⟨y, known', -⟩ := absorbs.merges.target woven
  simp [Flow, absorbs.live_self known known', known', Block.merged]

theorem edge_iff : g.Edge next v ↔ g.Flow next v := by
  obtain ⟨y, known, -⟩ := absorbs.merges.target woven
  exact (flow_iff_edge (by simp [known])).symm

theorem not_flow_next : ¬ g'.Flow next v := by
  simp [Flow, absorbs.live_next woven]

omit woven in
theorem flow_other (away : u ≠ h) (away' : u ≠ next) : g'.Flow u v ↔ g.Flow u v := by
  simp [Flow, absorbs.live_other away away']

/-- Nothing leads to the absorbed block any more. -/
theorem not_flow_to_next : ¬ g'.Flow u next := by
  intro flow
  by_cases self : u = h
  · subst self
    -- `h` has the edges of `next` now, and `next` did not lead to itself
    exact absorbs.merges.other (absorbs.merges.alone next ((absorbs.flow_self woven).1 flow))
  · by_cases same : u = next
    · exact absorbs.not_flow_next woven (same ▸ flow)
    · exact self (absorbs.merges.alone u ((absorbs.flow_other self same).1 flow))

theorem core_inv (found : g'.core? k = some y) : ∃ z, g.core? k = some z ∧ y.kind = z.kind ∧
    ∀ i, y.id = some i → z.id = some i := by
  have absorbed := absorbs.absorbed
  by_cases same : k = next
  · subst same
    obtain ⟨z, found', rfl⟩ := Option.map_eq_some_iff.1 (absorbed.removed ▸ found)
    exact ⟨z, found', rfl, fun i id => by cases id⟩
  · by_cases self : k = h
    · subst self
      obtain ⟨z, known, -⟩ := absorbs.merges.leads
      obtain ⟨w, known', -⟩ := absorbs.merges.target woven
      have core := (live?_eq_some.1 known).1
      cases found.symm.trans (absorbed.grown z w core (live?_eq_some.1 known').1)
      exact ⟨z, core, rfl, fun i id => id⟩
    · exact ⟨y, absorbed.away k self same ▸ found, rfl, fun i id => id⟩

/-- A block that is there was there. -/
theorem live_inv (found : g'.live? k = some y) :
    k ≠ next ∧ ∃ x, g.live? k = some x ∧ y.kind = x.kind := by
  obtain ⟨away, alive⟩ := (absorbs.isSome_iff woven (k := k)).1 (by simp [found])
  obtain ⟨x, known⟩ := Option.isSome_iff_exists.1 alive
  obtain ⟨z, core, kind, -⟩ := absorbs.core_inv woven (live?_eq_some.1 found).1
  cases core.symm.trans (live?_eq_some.1 known).1
  exact ⟨away, x, known, kind⟩

theorem entry_ne : entry ≠ h ∧ entry ≠ next := by
  constructor
  · rintro rfl
    obtain ⟨x, known, body, -⟩ := absorbs.merges.leads
    exact absurd (woven.inside known body) (by decide)
  · rintro rfl
    exact woven.source h (woven.linked.flow h _ (absorbs.merges.flow_iff.2 rfl)).1

theorem exit_ne : exit ≠ h ∧ exit ≠ next := by
  refine ⟨?_, absorbs.merges.inner.symm⟩
  rintro rfl
  obtain ⟨x, known, body, -⟩ := absorbs.merges.leads
  exact absurd (woven.inside known body) (by decide)

/-- An edge that was there is there, or leads to the absorbed block. -/
theorem way_around (way : ReflTransGen g.Flow u v) :
    ReflTransGen g'.Flow (if u = next then h else u) (if v = next then h else v) := by
  induction way with
  | refl => exact .refl
  | @tail v w _ flow ih =>
    by_cases same : w = next
    · subst same
      -- the step into the absorbed block came from `h`, so it is no step any more
      obtain rfl := absorbs.merges.alone v flow
      rw [if_neg (Ne.symm absorbs.merges.other)] at ih
      rwa [if_pos rfl]
    · rw [if_neg same]
      refine ih.tail ?_
      split
      case isTrue eq => exact (absorbs.flow_self woven).2 (eq ▸ flow)
      case isFalse ne =>
        have away : v ≠ h := by
          rintro rfl
          exact same (absorbs.merges.flow_iff.1 flow)
        exact (absorbs.flow_other away ne).2 flow

theorem keeps_passable (passable : g.Passable) : g'.Passable := by
  intro k alive
  obtain ⟨away, alive⟩ := (absorbs.isSome_iff woven).1 alive
  obtain ⟨before, behind⟩ := passable k alive
  have before := absorbs.way_around woven before
  have behind := absorbs.way_around woven behind
  rw [if_neg away, if_neg (absorbs.entry_ne woven).2] at before
  rw [if_neg away, if_neg (absorbs.exit_ne woven).2] at behind
  exact ⟨before, behind⟩

/-- A block that absorbs another does not let a third one absorb anything. -/
theorem merges_of_merges (away : k ≠ h) (merges : g'.Merges k m) : g.Merges k m := by
  obtain ⟨x, known, body, leads⟩ := merges.leads
  have away' : k ≠ next := by
    rintro rfl
    cases (absorbs.live_next woven).symm.trans known
  rw [absorbs.live_other away away'] at known
  have target : m ≠ next := by
    rintro rfl
    exact absorbs.not_flow_to_next woven (merges.flow_iff.2 rfl)
  refine ⟨⟨x, known, body, leads⟩, merges.inner, merges.other, fun u flow => ?_⟩
  by_cases self : u = h
  · subst self
    exact absurd (absorbs.merges.flow_iff.1 flow) target
  -- what entered `m` from the absorbed block enters it from `h` now
  · by_cases same : u = next
    · exact absurd (merges.alone h ((absorbs.flow_self woven).2 (same ▸ flow))).symm away
    · exact merges.alone u ((absorbs.flow_other self same).2 flow)

/-- Edges are kept at both ends again. -/
theorem keeps_linked : g'.Linked where
  flow u v flow := by
    have target : v ≠ next := by
      rintro rfl
      exact absorbs.not_flow_to_next woven flow
    have source : u ≠ next := by
      rintro rfl
      exact absorbs.not_flow_next woven flow
    rw [absorbs.isSome_iff woven]
    by_cases self : u = h
    · subst self
      have before := (absorbs.flow_self woven).1 flow
      exact ⟨(absorbs.absorbed.moved u v ((absorbs.edge_iff woven).2 before)).2 (.inr rfl), target,
        (woven.linked.flow next v before).2⟩
    · have before := (absorbs.flow_other self source).1 flow
      obtain ⟨entered, alive⟩ := woven.linked.flow u v before
      refine ⟨?_, target, alive⟩
      by_cases moved : g.Edge next v
      · exact (absorbs.absorbed.moved u v moved).2 (.inl ⟨source, entered⟩)
      · exact (absorbs.absorbed.entered u v moved).2 entered
  entered u v alive entered := by
    obtain ⟨target, alive⟩ := (absorbs.isSome_iff woven).1 alive
    -- an edge that was not moved was an edge of neither of the two blocks
    have keep : u ≠ next → g.Entered u v → g'.Flow u v := fun source entered => by
      have before := woven.linked.entered u v alive entered
      have self : u ≠ h := by
        rintro rfl
        exact target (absorbs.merges.flow_iff.1 before)
      exact (absorbs.flow_other self source).2 before
    by_cases moved : g.Edge next v
    · obtain ⟨source, entered⟩ | rfl := (absorbs.absorbed.moved u v moved).1 entered
      · exact keep source entered
      · exact (absorbs.flow_self woven).2 ((absorbs.edge_iff woven).1 moved)
    · rw [absorbs.absorbed.entered u v moved] at entered
      refine keep (fun source => moved ?_) entered
      subst source
      exact (absorbs.edge_iff woven).2 (woven.linked.entered u v alive entered)

theorem keeps_woven : g'.Woven where
  kinds k y found := by
    obtain ⟨z, found', kind, -⟩ := absorbs.core_inv woven found
    exact kind.trans (woven.kinds k z found')
  source u entered := by
    have outside : ¬ g.Edge next entry := fun edge => woven.source next
      (woven.linked.flow next entry ((absorbs.edge_iff woven).1 edge)).1
    rw [absorbs.absorbed.entered u entry outside] at entered
    exact woven.source u entered
  linked := absorbs.keeps_linked woven

omit woven in
theorem keeps_tidy (tidy : g.Tidy) : g'.Tidy where
  kinds := (absorbs.keeps_woven tidy.woven).kinds
  nodup := absorbs.absorbed.reworks.table ▸ tidy.nodup
  inside := by
    rw [absorbs.absorbed.reworks.table, absorbs.absorbed.reworks.size]
    exact tidy.inside
  numbers k y i found id := by
    obtain ⟨z, found', -, ids⟩ := absorbs.core_inv tidy.woven found
    rw [absorbs.absorbed.reworks.table]
    exact tidy.numbers k z i found' (ids i id)
  entry := by
    obtain ⟨away, away'⟩ := absorbs.entry_ne tidy.woven
    rw [absorbs.live_other away away']
    exact tidy.entry
  exit := by
    obtain ⟨away, away'⟩ := absorbs.exit_ne tidy.woven
    rw [absorbs.live_other away away']
    exact tidy.exit
  source := (absorbs.keeps_woven tidy.woven).source
  flow := (absorbs.keeps_linked tidy.woven).flow
  entered := (absorbs.keeps_linked tidy.woven).entered
  ends k y found body := by
    have away : k ≠ next := by
      rintro rfl
      cases (absorbs.live_next tidy.woven).symm.trans found
    by_cases self : k = h
    · subst self
      obtain ⟨x, known, -⟩ := absorbs.merges.leads
      obtain ⟨z, known', kind⟩ := absorbs.merges.target tidy.woven
      cases found.symm.trans (absorbs.live_self known known')
      obtain ⟨e, ends, asked⟩ := tidy.ends next z known' kind
      refine ⟨e, Block.ends_merged.2 ends, fun decides => ?_⟩
      have more := asked decides
      simp only [Block.merged, Fragment.choices_append]
      omega
    · rw [absorbs.live_other self away] at found
      exact tidy.ends k y found body

/-- No block becomes empty. -/
theorem keeps_filled (filled : g.Filled) : g'.Filled := by
  intro k y found body
  have away : k ≠ next := by
    rintro rfl
    cases (absorbs.live_next woven).symm.trans found
  by_cases self : k = h
  · subst self
    obtain ⟨x, known, kind, -⟩ := absorbs.merges.leads
    obtain ⟨z, known', -⟩ := absorbs.merges.target woven
    cases found.symm.trans (absorbs.live_self known known')
    simp [Block.merged, filled k x known kind]
  · rw [absorbs.live_other self away] at found
    exact filled k y found body

end Absorbs

end Graph

end Flowgraph
