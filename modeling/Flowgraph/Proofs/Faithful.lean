import Flowgraph.Proofs.Canonical
import Flowgraph.Proofs.Trips
import Flowgraph.Proofs.Walks

/-!
# Pruned graphs are faithful

The executions of a function are the walks through its pruned graph.  On the way there are the trips
through the numbered blocks of the graph before it is pruned: the sweep leaves all blocks that a trip
visits, and the other passes do not change what a walk from the entry does.
-/

namespace Flowgraph

theorem Ending.Rel.next? {α β : Type} {R : α → β → Prop} {e : Ending α} {f : Ending β}
    (rel : Rel R e f) {stop a : α} {stop' : β} (stops : R stop stop') {choice : Option Bool}
    (leads : e.next? stop choice = some a) : ∃ b, f.next? stop' choice = some b ∧ R a b := by
  cases rel with
  | goes related =>
    cases leads
    exact ⟨_, rfl, related⟩
  | returns =>
    cases leads
    exact ⟨_, rfl, stops⟩
  | branches related related' | loops related related' =>
    rcases choice with _ | _ | _ <;> cases leads
    · exact ⟨_, rfl, related'⟩
    · exact ⟨_, rfl, related⟩

theorem Ending.next?_resolved (e : Ending Nat) (choice : Option Bool) :
    e.resolved.next? Graph.exit choice = e.next? Graph.exit choice := by
  cases e <;> rfl

namespace Graph

variable {g g' : Graph} {f : SourceFunction} {live : List Nat} {h i : Nat} {D : List Bool}
  {F : List String}

/-- A walk depends on the blocks only. -/
theorem Walks.congr (walks : g.Walks h D F) (same : ∀ k, g'.block? k = g.block? k) :
    g'.Walks h D F := by
  induction walks with
  | exit => exact .exit
  | visit found choices leads _ ih => exact .visit ((same _).trans found) choices leads ih

/-- The executions of a function are the trips through its graph. -/
theorem Draws.runs_iff_trip (draws : g.Draws f) :
    (∃ outcome, f.body.Runs D F outcome) ↔ ∃ count, g.Trip count (some 0) D F := by
  obtain ⟨Q, layout, leaves⟩ := draws.layout
  have plain : Spot.Plain (some (0, [])) := Spot.plain_start 0
  constructor
  · rintro ⟨outcome, runs⟩
    have left : ∃ bound, g.Left bound Q [] [] outcome := by
      cases outcome with
      | returned => exact ⟨0, rfl, rfl⟩
      | normal =>
        -- control gets past the body, and from the block where it does out of the function
        obtain ⟨q, p, rfl⟩ := layout.leaves_of_runs runs rfl
        have trip := (leaves q p rfl).goes_trip (layout.plain plain q p rfl) .out
        exact ⟨1, q, p, 1, rfl, Nat.le_refl 1, trip⟩
    obtain ⟨bound, left⟩ := left
    obtain ⟨count, trip⟩ := layout.trip_of_runs runs rfl plain left
    exact ⟨count, by simpa using trip⟩
  · rintro ⟨count, trip⟩
    obtain ⟨D₁, D₂, F₁, F₂, outcome, rfl, rfl, runs, left⟩ :=
      layout.runs_of_trip draws.sound count rfl plain (Nat.le_refl count) trip
    cases outcome with
    | returned =>
      obtain ⟨rfl, rfl⟩ := left
      exact ⟨.returned, by simpa using runs⟩
    | normal =>
      obtain ⟨q, p, count', rfl, -, trip⟩ := left
      obtain ⟨F', rest, text, rfl, trip⟩ := trip.behind_goes draws.sound (leaves q p rfl)
        (layout.plain plain q p rfl)
      obtain rfl := List.append_cancel_left text
      cases trip
      exact ⟨.normal, by simpa using runs⟩

section Swept

variable (draws : g.Draws f) (reached : g.Reached live) (swept : Swept g (Dropped g live) g')

include draws

omit reached swept in
/-- A finished block leads where its ending does. -/
theorem Draws.next?_block {lines : List String} {e : Ending (Option Nat)} {f' : Ending Nat}
    (named : g.table[i]? = some h) (has : g.Has i lines e) (rel : f'.Rel g.Place e)
    (choice : Option Bool) : (f'.block (some i) lines).next? choice = f'.next? exit choice := by
  have ends : (f'.block (some i) lines).Ends f'.resolved := by
    refine Ending.block_ends ?_
    rintro body after rfl
    exact (draws.loop_apart named has rel).1
  rw [ends.next?, Ending.next?_resolved]

include reached swept

theorem Swept.walks_of_trip {count : Nat} {k : Option Nat} (trip : g.Trip count k D F)
    (inside : ∀ i, k = some i → i ∈ 0 :: live) (place : g.Place h k) : g'.Walks h D F := by
  induction trip generalizing h with
  | out =>
    rw [show h = exit from place]
    exact .exit
  | visit has choices leads rest ih =>
    have here := inside _ rfl
    obtain ⟨f', known, rel⟩ := swept.live_of_has draws here place has
    have rel' := rel.swap (S := fun k v => g.Place v k) fun _ _ => id
    have stops : (fun k v => g.Place v k) none exit := rfl
    obtain ⟨v, leads', place'⟩ := rel'.next? stops leads
    refine walks_of_live known choices ((draws.next?_block place has rel _).trans leads') ?_
    refine ih (fun j eq => ?_) place'
    subst eq
    exact List.mem_cons_of_mem 0 (reached.closed _ here j ⟨_, _, has, Ending.mem_targets leads⟩)

theorem Swept.trip_of_walks (walks : g'.Walks h D F) {k : Option Nat}
    (inside : ∀ i, k = some i → i ∈ 0 :: live) (place : g.Place h k) :
    ∃ count, g.Trip count k D F := by
  induction walks generalizing k with
  | exit =>
    rw [Place.unique draws.sound place (show g.Place exit none from rfl)]
    exact ⟨0, .out⟩
  | @visit h v b D D' F found choices leads rest ih =>
    cases k with
    | none =>
      -- no walk visits the exit, where control stops
      obtain rfl : h = exit := place
      have known := live_of_block found (by simp [swept.live_exit draws])
      obtain ⟨-, -, -, -, flow, -⟩ := (swept.tidy draws reached).leads known leads
      exact absurd flow (swept.not_flow_exit draws)
    | some i =>
      have here := inside i rfl
      obtain ⟨lines, e, has, -⟩ := (draws.fits (reached.below i here)).finished
      obtain ⟨f', known, rel⟩ := swept.live_of_has draws here place has
      have same := Option.some.inj ((live_of_block found (by simp [known])).symm.trans known)
      obtain rfl : b.lines = lines := congrArg Block.lines same
      have leads' : f'.next? exit D.getLast? = some v := by
        rw [← draws.next?_block place has rel, ← same]
        exact leads
      obtain ⟨k', leads', place'⟩ := rel.next? (show g.Place exit none from rfl) leads'
      obtain ⟨count, trip⟩ := ih (fun j eq => List.mem_cons_of_mem 0
        (reached.closed i here j ⟨_, _, has, eq ▸ Ending.mem_targets leads'⟩)) place'
      exact ⟨count + 1, .visit has choices leads' trip⟩

theorem Swept.trip_iff_walks : (∃ count, g.Trip count (some 0) D F) ↔ g'.Walks entry D F := by
  have inside : ∀ i, some 0 = some i → i ∈ 0 :: live := by simp
  have known := swept.live_entry draws
  constructor
  · rintro ⟨count, trip⟩
    have walks := swept.walks_of_trip draws reached trip inside draws.sound.first
    exact walks_of_live known (D := []) rfl rfl walks
  · intro walks
    cases walks with
    | @visit _ v b D D' F found choices leads rest =>
      have same := Option.some.inj ((live_of_block found (by simp [known])).symm.trans known)
      have lines : b.lines = [] := congrArg Block.lines same
      obtain rfl : D = [] := List.length_eq_zero_iff.1 (by rw [choices, lines]; rfl)
      have first : b.core.next? none = some 2 := by
        rw [same]
        rfl
      obtain rfl : 2 = v := Option.some.inj (first.symm.trans leads)
      rw [lines, List.nil_append, List.nil_append]
      exact swept.trip_of_walks draws reached rest inside draws.sound.first

end Swept

end Graph

/-- The executions of a function are the walks from the entry to the exit of its pruned graph. -/
theorem SourceFunction.runs_iff_walks (f : SourceFunction) :
    ∃ g report, f.prunedGraph = .ok (g, report) ∧
      ∀ D F, (∃ outcome, f.body.Runs D F outcome) ↔ g.Walks Graph.entry D F := by
  obtain ⟨g₀, live, g, report, draws, reached, run, pruned⟩ := f.prunedGraph_run
  refine ⟨g, report, run, fun D F => ?_⟩
  obtain ⟨g₁, g₂, g₃, swept, elided, merged, rfl, -⟩ := pruned.steps
  have elidable := swept.elidable draws reached
  have mergeable := elidable.mergeable elided
  rw [draws.runs_iff_trip, swept.trip_iff_walks draws reached, ← elidable.walks_iff elided,
    ← mergeable.walks_iff merged]
  exact ⟨fun walks => walks.congr fun _ => rfl, fun walks => walks.congr fun _ => rfl⟩

end Flowgraph
