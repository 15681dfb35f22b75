import Flowgraph.Proofs.Pairing
import Flowgraph.Proofs.Removals

/-!
# The sweep keeps what control can get to

One sweep in the order of the table is enough: every block that control can get to is entered from
such a block with a smaller number, so it is known to be reached when the sweep comes to it.
-/

namespace Flowgraph

open Edit

namespace Graph

variable {g g' : Graph} {f : SourceFunction} {live done rest : List Nat} {h i k u v : Nat}
  {s : Sweep} {x : Block}

/-- Block `h` has a number, and not one of those that control can get to. -/
def Dropped (g : Graph) (live : List Nat) (h : Nat) : Prop :=
  ∃ i, g.table[i]? = some h ∧ i ∉ 0 :: live

/-- The graph `g'` is `g` without the dropped blocks. -/
structure Swept (g : Graph) (gone : Nat → Prop) (g' : Graph) : Prop where
  reworks : g.Reworks g'
  kept : ∀ k, ¬ gone k → g'.core? k = g.core? k
  dropped : ∀ k, gone k → g'.core? k = (g.core? k).map Block.retire
  entered : ∀ u v, g'.Entered u v ↔ g.Entered u v ∧ ¬ gone u

/-- What the sweep knows when it has come past the blocks `done`. -/
structure Knows (g : Graph) (live done : List Nat) (s : Sweep) : Prop where
  sound : ∀ h ∈ s.reached, h = exit ∨ ∃ i ∈ 0 :: live, g.table[i]? = some h
  complete : ∀ i ∈ 0 :: live, i = 0 ∨ (∃ u ∈ 0 :: live, u < done.length ∧ g.Arc u (some i)) →
    ∀ h, g.table[i]? = some h → h ∈ s.reached
  counted : ∃ gone : List Nat, gone.Nodup ∧ gone.length = s.dropped ∧
    ∀ k, k ∈ gone ↔ k ∈ done ∧ Dropped g live k

theorem Swept.refl (g : Graph) : Swept g (fun _ => False) g :=
  ⟨.refl g, fun _ _ => rfl, fun _ => False.elim, by simp⟩

/-- Where the edges of a finished block lead. -/
theorem Has.edge_iff {lines : List String} {e : Ending (Option Nat)} (has : g.Has i lines e)
    (sound : g.Sound) (named : g.table[i]? = some h) :
    g.Edge h v ↔ ∃ k, g.Arc i k ∧ g.Place v k := by
  obtain ⟨h', f, named', core, rel⟩ := id has
  cases named.symm.trans named'
  have edge : g.Edge h v ↔ v ∈ f.targets exit := by
    rw [edge_iff_core]
    simp [core, Ending.block]
  rw [edge]
  constructor
  · intro target
    obtain ⟨k, target', place⟩ := rel.targets (show g.Place exit none from rfl) target
    exact ⟨k, ⟨lines, e, has, target'⟩, place⟩
  · rintro ⟨k, arc, place⟩
    rw [has.arc_iff sound] at arc
    have rel' := rel.swap (S := fun k v => g.Place v k) fun _ _ => id
    have stops : (fun k v => g.Place v k) none exit := rfl
    obtain ⟨w, target, place'⟩ := rel'.targets stops arc
    cases k with
    | none => exact place.trans place'.symm ▸ target
    | some j => cases place.symm.trans place'; exact target

/-- The successors of a block in the graph of a function. -/
theorem Draws.edge_iff (draws : g.Draws f) (named : g.table[i]? = some h) :
    g.Edge h v ↔ ∃ k, g.Arc i k ∧ g.Place v k := by
  obtain ⟨lines, e, has, -⟩ := (draws.fits (List.getElem?_eq_some_iff.1 named).1).finished
  exact has.edge_iff draws.sound named

/-- A block that is named by its number was dropped if control cannot get to that number. -/
theorem Draws.dropped_iff (draws : g.Draws f) (named : g.table[i]? = some h) :
    Dropped g live h ↔ i ∉ 0 :: live := by
  constructor
  · rintro ⟨j, named', outside⟩
    rwa [draws.sound.number_unique named named']
  · exact fun outside => ⟨i, named, outside⟩

/-- The sweep comes to a block that is known to be reached. -/
theorem Knows.pass (draws : g.Draws f) (reached : g.Reached live) (knows : Knows g live done s)
    (named : g.table[done.length]? = some h) (known : g.core? h = some x) (member : h ∈ s.reached) :
    done.length ∈ 0 :: live ∧
      Knows g live (done ++ [h]) { s with reached := s.reached.union x.successors } := by
  have edge : ∀ v, v ∈ x.successors ↔ ∃ k, g.Arc done.length k ∧ g.Place v k := by
    intro v
    rw [← draws.edge_iff named, edge_iff_core]
    simp [known]
  have inside : done.length ∈ 0 :: live := by
    obtain rfl | ⟨i, inside, named'⟩ := knows.sound h member
    · exact absurd (draws.sound.numbers _ _ |>.1 named) (by simp [number?, draws.sound.exit])
    · rwa [draws.sound.number_unique named named']
  have stays := mt (draws.dropped_iff named).1 (not_not_intro inside)
  obtain ⟨gone, nodup, length, listed⟩ := knows.counted
  refine ⟨inside, fun v member => ?_, fun j inside' entered v named' => ?_,
    gone, nodup, length, fun k => ?_⟩
  · obtain old | new := OrderedSet.mem_union.1 member
    · exact knows.sound v old
    · obtain ⟨k, arc, place⟩ := (edge v).1 new
      cases k with
      | none => exact .inl place
      | some j => exact .inr ⟨j, List.mem_cons_of_mem _ (reached.closed _ inside j arc), place⟩
  · refine OrderedSet.mem_union.2 ?_
    obtain rfl | ⟨u, source, before, arc⟩ := entered
    · exact .inl (knows.complete 0 inside' (.inl rfl) v named')
    · rw [List.length_append, List.length_singleton] at before
      -- entered from the block that is passed now, or from one that was passed before
      by_cases last : u = done.length
      · subst last
        exact .inr ((edge v).2 ⟨some j, arc, named'⟩)
      · exact .inl (knows.complete j inside' (.inr ⟨u, source, by omega, arc⟩) v named')
  · by_cases same : k = h
    · subst same
      simp [listed, stays]
    · simp [listed, same]

/-- The sweep comes to a block that is not known to be reached. -/
theorem Knows.miss (draws : g.Draws f) (reached : g.Reached live) (knows : Knows g live done s)
    (named : g.table[done.length]? = some h) (fresh : h ∉ done) (away : h ∉ s.reached) :
    done.length ∉ 0 :: live ∧ Knows g live (done ++ [h]) { s with dropped := s.dropped + 1 } := by
  have outside : done.length ∉ 0 :: live := by
    intro inside
    refine away (knows.complete _ inside ?_ h named)
    obtain first | later := List.mem_cons.1 inside
    · exact .inl first
    · exact .inr (reached.entered _ later)
  have leaves := (draws.dropped_iff named).2 outside
  obtain ⟨gone, nodup, length, listed⟩ := knows.counted
  refine ⟨outside, knows.sound, fun j inside entered => knows.complete j inside ?_,
    h :: gone, List.nodup_cons.2 ⟨fun member => fresh ((listed h).1 member).1, nodup⟩,
    congrArg (· + 1) length, fun k => ?_⟩
  · refine entered.imp_right fun ⟨u, source, before, arc⟩ => ⟨u, source, ?_, arc⟩
    rw [List.length_append, List.length_singleton] at before
    -- the missed block is not live, so it is not the one that a live block is entered from
    have other : u ≠ done.length := fun eq => outside (eq ▸ source)
    omega
  · by_cases same : k = h
    · subst same
      simp [leaves]
    · simp [listed, same]

theorem Swept.congr {gone gone' : Nat → Prop} (swept : Swept g gone g')
    (same : ∀ k, gone k ↔ gone' k) : Swept g gone' g' where
  reworks := swept.reworks
  kept k := by
    rw [← same]
    exact swept.kept k
  dropped k := by
    rw [← same]
    exact swept.dropped k
  entered u v := by
    rw [← same]
    exact swept.entered u v

/-- One more block is dropped. -/
theorem Swept.drop {gone : Nat → Prop} (mirrored : g.Mirrored) (swept : Swept g gone g')
    (known : g.core? h = some x) (near : ∀ v ∈ x.successors, v < g.arena.size) (still : ¬ gone h) :
    ∃ g'', drop h g' = .ok () g'' ∧ Swept g (fun k => gone k ∨ k = h) g'' := by
  have known' : g'.core? h = some x := (swept.kept h still).trans known
  obtain ⟨g'', run, reworks, core, entered⟩ := drop_run known' fun v member => by
    rw [swept.reworks.size]
    exact near v member
  refine ⟨g'', run, swept.reworks.trans reworks, fun k away => ?_, fun k gone => ?_, fun u v => ?_⟩
  · rw [core, if_neg fun eq => away (.inr eq)]
    exact swept.kept k fun gone => away (.inl gone)
  · rw [core]
    by_cases same : k = h
    · rw [if_pos same, same, known]
      rfl
    · rw [if_neg same, swept.dropped k (gone.resolve_right same)]
  · rw [entered, swept.entered, and_assoc]
    refine and_congr_right fun enters => ?_
    rw [not_or]
    refine and_congr_right fun _ => not_congr (and_iff_left_of_imp ?_)
    rintro rfl
    obtain ⟨y, found, member⟩ := edge_iff_core.1 ((mirrored u v).2 enters)
    cases known.symm.trans found
    exact member

/-- The sweep has come past the blocks `done` of the table and stands before those of `rest`. -/
structure Sweeping (g : Graph) (live done rest : List Nat) (s : Sweep) (g' : Graph) : Prop where
  order : g.table = done ++ rest
  swept : Swept g (fun k => k ∈ done ∧ Dropped g live k) g'
  knows : Knows g live done s

/-- Control begins in the first block of the table, so the sweep knows that one to be reached. -/
theorem Draws.sweeping (draws : g.Draws f) (live : List Nat) :
    Sweeping g live [] g.table { reached := g.table.head?.elim ∅ .singleton } g := by
  have first := draws.sound.first
  have head : g.table.head? = some 2 := by rw [List.head?_eq_getElem?, first]
  rw [head]
  refine ⟨rfl, (Swept.refl g).congr (by simp), fun h member => .inr ⟨0, List.mem_cons_self, ?_⟩,
    fun i _ entered h named => ?_, [], .nil, rfl, by simp⟩
  · rw [OrderedSet.mem_singleton.1 member, first]
  · obtain rfl | ⟨u, -, before, -⟩ := entered
    · exact OrderedSet.mem_singleton.2 (Option.some.inj (named.symm.trans first))
    · cases before

namespace Sweeping

variable (draws : g.Draws f) (sweeping : Sweeping g live done (h :: rest) s g')

include sweeping

theorem named : g.table[done.length]? = some h := by
  simp [sweeping.order]

include draws

/-- The table lists no block twice. -/
theorem fresh : h ∉ done := by
  intro member
  obtain ⟨j, lt, earlier⟩ := List.getElem_of_mem member
  have again : g.table[j]? = some h := by
    rw [sweeping.order, List.getElem?_append_left lt, List.getElem?_eq_getElem lt, earlier]
  have := draws.sound.number_unique sweeping.named again
  omega

/-- Whatever the sweep does with the next block, what it knows then holds of one more block. -/
theorem step (reached : g.Reached live) :
    ∃ s' g'', sweepBlock s h g' = .ok s' g'' ∧ Sweeping g live (done ++ [h]) rest s' g'' := by
  have named := sweeping.named
  have fresh := sweeping.fresh draws
  have order : g.table = done ++ [h] ++ rest := by simp [sweeping.order]
  have still : ¬ (h ∈ done ∧ Dropped g live h) := fun both => fresh both.1
  have dropped_iff : Dropped g live h ↔ done.length ∉ 0 :: live := draws.dropped_iff named
  obtain ⟨x, known, -⟩ := draws.sound.core_of_named named
  obtain ⟨b, found, rfl⟩ := core?_eq_some.1 ((sweeping.swept.kept h still).trans known)
  by_cases member : h ∈ s.reached
  · obtain ⟨inside, knows⟩ := sweeping.knows.pass draws reached named known member
    refine ⟨_, g', ?_, order, sweeping.swept.congr fun k => ?_, knows⟩
    · rw [sweepBlock, bind_ok (look_run found), if_pos member, pure_run]
      rfl
    · by_cases same : k = h
      · subst same
        simp [dropped_iff, inside]
      · simp [same]
  · obtain ⟨outside, knows⟩ := sweeping.knows.miss draws reached named fresh member
    have near : ∀ v ∈ b.core.successors, v < g.arena.size := by
      intro v target
      obtain ⟨k, -, place⟩ := (draws.edge_iff named).1 (edge_iff_core.2 ⟨_, known, target⟩)
      cases k with
      | none => exact place ▸ draws.sound.exit_lt
      | some j => exact draws.sound.lt_of_named place
    obtain ⟨g'', run, swept⟩ := sweeping.swept.drop draws.sound.mirrored known near still
    refine ⟨_, g'', ?_, order, swept.congr fun k => ?_, knows⟩
    · rw [sweepBlock, bind_ok (look_run found), if_neg member, bind_ok run, pure_run]
    · by_cases same : k = h
      · subst same
        simp [dropped_iff, outside]
      · simp [same]

end Sweeping

/-- The sweep takes the numbers of the blocks that control cannot get to, and answers how many these
were. -/
theorem dropUnreachable_run (draws : g.Draws f) (reached : g.Reached live) :
    ∃ (gone : List Nat) (g' : Graph), dropUnreachable g = .ok gone.length g' ∧
      Swept g (Dropped g live) g' ∧ gone.Nodup ∧ ∀ h, h ∈ gone ↔ Dropped g live h := by
  obtain ⟨s, g', run, done, sweeping⟩ := foldlM_run
    (motive := fun rest s g' => ∃ done, Sweeping g live done rest s g')
    (fun h rest s g' ⟨done, sweeping⟩ => by
      obtain ⟨s', g'', run, onward⟩ := sweeping.step draws reached
      exact ⟨s', g'', run, _, onward⟩)
    ⟨[], draws.sweeping live⟩
  have order : g.table = done := by rw [sweeping.order, List.append_nil]
  -- The sweep is past the whole table, where every dropped block is.
  have whole : ∀ k, k ∈ done ∧ Dropped g live k ↔ Dropped g live k := by
    refine fun k => and_iff_right_of_imp fun ⟨i, named, _⟩ => ?_
    exact order ▸ List.mem_of_getElem? named
  obtain ⟨gone, nodup, length, listed⟩ := sweeping.knows.counted
  refine ⟨gone, g', ?_, sweeping.swept.congr whole, nodup, fun k => (listed k).trans (whole k)⟩
  rw [dropUnreachable, bind_ok (get_run g), bind_ok run, pure_run, length]

end Graph

end Flowgraph
