import Flowgraph.Proofs.WellFormed

/-!
# The sweep agrees with a search

An ordinary search follows the edges of a graph until it finds no new block.  The sweep looks at
every block once, and still it keeps the blocks that the search finds: a block that control can get
to is found, and a block that is found is one that control can get to.
-/

namespace Flowgraph

open Relation

namespace Graph

variable {g g' : Graph} {f : SourceFunction} {live : List Nat} {h i u v n : Nat} {x : Block}

/-- Block `h` is found by a search along the edges from the first numbered block. -/
def Searched (g : Graph) (h : Nat) : Prop :=
  ∃ first, g.table[0]? = some first ∧ ReflTransGen g.Edge first h

/-- The graph `g'` is `g` less the `n` body blocks that a search does not find. -/
structure SweptExactly (g : Graph) (n : Nat) (g' : Graph) : Prop where
  kept : ∀ h, g.Body h → ((∃ x, g'.Live h x) ↔ g.Searched h)
  unchanged : ∀ h, g.Body h → g.Searched h → g'.core? h = g.core? h
  counted : ∃ gone : List Nat, gone.Nodup ∧ gone.length = n ∧
    ∀ h, h ∈ gone ↔ g.Body h ∧ ¬ g.Searched h
  ends : (∃ x, g'.Live entry x) ∧ ∃ x, g'.Live exit x
  clean : ∀ u x v, g'.Live u x → v ∈ x.predecessors ∨ v ∈ x.successors → ∃ y, g'.Live v y

/-- The body blocks of the graph of a function are the numbered ones. -/
theorem Draws.body_iff (draws : g.Draws f) : g.Body h ↔ ∃ i : Nat, g.table[i]? = some h := by
  rw [draws.sound.wired.body_iff]
  constructor
  · rintro ⟨high, lt⟩
    exact draws.numbered h high lt
  · rintro ⟨i, named⟩
    exact ⟨draws.sound.inside_of_named named, draws.sound.lt_of_named named⟩

/-- The search does not leave the blocks that control can get to. -/
theorem Reached.of_searched (reached : g.Reached live) (draws : g.Draws f)
    (searched : g.Searched h) : h = exit ∨ ∃ i ∈ 0 :: live, g.table[i]? = some h := by
  obtain ⟨first, named, found⟩ := searched
  induction found with
  | refl => exact .inr ⟨0, List.mem_cons_self, named⟩
  | tail _ edge ih =>
    obtain rfl | ⟨i, inside, source⟩ := ih
    · -- Nothing leaves the exit.
      obtain ⟨x, core, member⟩ := edge_iff_core.1 edge
      rw [draws.sound.exit] at core
      cases core
      cases member
    · -- An edge is drawn for an arc of the outline, and the live numbers are closed under arcs.
      obtain ⟨k, arc, place⟩ := (draws.edge_iff source).1 edge
      cases k with
      | none => exact .inl place
      | some j =>
        have next := reached.closed i inside j arc
        exact .inr ⟨j, List.mem_cons_of_mem 0 next, place⟩

/-- The search finds every block that control can get to: each of them is entered from one with a
smaller number. -/
theorem Reached.searched (reached : g.Reached live) (draws : g.Draws f) (inside : i ∈ 0 :: live)
    (named : g.table[i]? = some h) : g.Searched h := by
  induction i using Nat.strongRecOn generalizing h with
  | ind i ih =>
    obtain rfl | later := List.mem_cons.1 inside
    · exact ⟨h, named, .refl⟩
    · obtain ⟨u, source, less, arc⟩ := reached.entered i later
      have below := reached.below u source
      have known : g.table[u]? = some g.table[u] := List.getElem?_eq_getElem below
      obtain ⟨first, start, found⟩ := ih u less source known
      refine ⟨first, start, found.tail ?_⟩
      apply (draws.edge_iff known).2
      exact ⟨some i, arc, named⟩

/-- The blocks that the sweep drops are those that the search does not find. -/
theorem Reached.dropped_iff (reached : g.Reached live) (draws : g.Draws f) :
    Dropped g live h ↔ g.Body h ∧ ¬ g.Searched h := by
  constructor
  · rintro ⟨i, named, outside⟩
    refine ⟨draws.body_iff.2 ⟨i, named⟩, fun searched => ?_⟩
    obtain rfl | ⟨j, inside, named'⟩ := reached.of_searched draws searched
    · have := draws.sound.inside_of_named named
      exact absurd this (by decide)
    · rw [draws.sound.number_unique named named'] at outside
      exact outside inside
  · rintro ⟨body, missed⟩
    obtain ⟨i, named⟩ := draws.body_iff.1 body
    apply (draws.dropped_iff named).2
    intro inside
    exact missed (reached.searched draws inside named)

theorem Swept.exactly (draws : g.Draws f) (reached : g.Reached live)
    (swept : Swept g (Dropped g live) g') {gone : List Nat} (nodup : gone.Nodup)
    (listed : ∀ h, h ∈ gone ↔ Dropped g live h) : SweptExactly g gone.length g' where
  kept h body := by
    constructor
    · rintro ⟨x, alive⟩
      have stays := (swept.of_live draws alive.core).1
      by_contra missed
      exact stays ((reached.dropped_iff draws).2 ⟨body, missed⟩)
    · intro searched
      obtain ⟨i, named⟩ := draws.body_iff.1 body
      have stays : ¬ Dropped g live h := fun gone =>
        ((reached.dropped_iff draws).1 gone).2 searched
      have inside := not_not.1 (mt (draws.dropped_iff named).2 stays)
      exact live_of_isSome (swept.live_of_named draws inside named)
  unchanged h _ searched :=
    swept.kept h fun gone => ((reached.dropped_iff draws).1 gone).2 searched
  counted := by
    refine ⟨gone, nodup, rfl, fun h => ?_⟩
    rw [listed, reached.dropped_iff draws]
  ends := by
    have first := swept.live_entry draws
    have last := swept.live_exit draws
    exact ⟨live_of_isSome (by simp [first]), live_of_isSome (by simp [last])⟩
  clean u x v alive near := by
    have tidy := swept.tidy draws reached
    obtain before | behind := near
    · have flow := tidy.entered v u (by simp [alive.core]) (alive.entered.2 before)
      obtain ⟨y, known, -⟩ := flow
      exact live_of_isSome (by simp [known])
    · exact live_of_isSome (tidy.flow u v (alive.flow.2 behind)).2

end Graph

/-- One sweep over the graph of a function does what a search would do: it keeps the blocks that the
search finds, and answers how many the others are. -/
theorem SourceFunction.dropUnreachable_exact (f : SourceFunction) :
    ∃ g n g', f.graph = .ok g ∧ Graph.dropUnreachable g = .ok n g' ∧ g.SweptExactly n g' := by
  obtain ⟨g, grown, draws⟩ := f.graph_draws
  obtain ⟨live, reached⟩ := draws.reached
  obtain ⟨gone, g', run, swept, nodup, listed⟩ := Graph.dropUnreachable_run draws reached
  exact ⟨g, gone.length, g', grown, run, swept.exactly draws reached nodup listed⟩

end Flowgraph
