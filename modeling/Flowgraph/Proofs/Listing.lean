import Flowgraph.Label
import Flowgraph.Proofs.WellFormed

/-!
# How neighbours are listed

The neighbours of a block are sorted before they are printed.  Among live blocks there is only one
order in which that can end: the numbered blocks as they stand in the table, then the entry, then
the exit.  So the list that is printed does not depend on the order in which the edges were drawn.
-/

namespace Flowgraph

namespace Block

theorem comesBefore_trans {a b c : Block} (first : a.comesBefore b = true)
    (second : b.comesBefore c = true) : a.comesBefore c = true := by
  simp only [comesBefore] at first second ⊢
  revert first second
  cases a.id <;> cases b.id <;> cases c.id <;> simp <;> omega

theorem comesBefore_total (a b : Block) : (a.comesBefore b || b.comesBefore a) = true := by
  unfold comesBefore
  cases a.id <;> cases b.id <;> simp <;> omega

end Block

namespace Graph

variable {g : Graph} {h k i : Nat} {x y : Block} {hs : List Nat}

/-- The live blocks in the order in which they are listed. -/
def order (g : Graph) : List Nat := g.roll ++ [entry, exit]

/-- The label of a block. -/
def title? (g : Graph) (h : Nat) : Option String := g.labelOf? h (g.filed h).2

theorem Live.filed (live : g.Live h x) : g.filed h = (h, x) := filed_of_block live.1

theorem Live.title (live : g.Live h x) : g.title? h = g.labelOf? h x := by
  rw [title?, live.filed]

namespace Tidy

variable (tidy : g.Tidy)

include tidy

theorem alive_eq : g.alive = .ok (g.roll.map g.filed) :=
  alive_ok fun h member => (tidy.inside h member).2

theorem live_of_mem_roll (member : h ∈ g.roll) : ∃ x, g.Live h x ∧ x.kind = .body := by
  obtain ⟨inside, alive⟩ := List.mem_filter.1 member
  obtain ⟨x, live⟩ := live_of_isSome alive
  exact ⟨x, live, (tidy.kind_eq live).trans (BlockKind.ofHandle_eq_body.2 (tidy.inside h inside).1)⟩

theorem live_entry : ∃ x, g.Live Graph.entry x := by
  obtain ⟨next, known⟩ := tidy.entry
  exact live_of_isSome (by simp [known])

theorem live_exit : ∃ x, g.Live Graph.exit x := live_of_isSome (by simp [tidy.exit])

/-- Only a numbered block has a number. -/
theorem id_eq_none (live : g.Live h x) (low : h < 2) : x.id = none := by
  cases id : x.id with
  | none => rfl
  | some i =>
    have := tidy.inside h (List.mem_of_getElem? (tidy.named_of_live live id))
    omega

theorem mem_order : h ∈ g.order ↔ ∃ x, g.Live h x := by
  rw [order, List.mem_append]
  constructor
  · rintro (member | member)
    · obtain ⟨x, live, -⟩ := tidy.live_of_mem_roll member
      exact ⟨x, live⟩
    · obtain rfl | rfl : h = Graph.entry ∨ h = Graph.exit := by simpa using member
      · exact tidy.live_entry
      · exact tidy.live_exit
  · rintro ⟨x, live⟩
    match h with
    | 0 => exact .inr (by simp [Graph.entry])
    | 1 => exact .inr (by simp [Graph.exit])
    | h + 2 => exact .inl (tidy.mem_roll live.core (tidy.kind_eq live))

theorem order_nodup : g.order.Nodup := by
  refine List.nodup_append.2 ⟨tidy.nodup.filter _, by decide, fun h left k right => ?_⟩
  have := tidy.inside h (List.mem_filter.1 left).1
  obtain rfl | rfl : k = Graph.entry ∨ k = Graph.exit := by simpa using right
  · rw [Graph.entry]
    omega
  · rw [Graph.exit]
    omega

/-- The order is that in which neighbours are listed. -/
theorem order_sorted :
    (g.order.map g.filed).Pairwise fun a b => a.2.comesBefore b.2 = true := by
  rw [List.pairwise_map, order, List.pairwise_append]
  refine ⟨?_, ?_, fun h left k right => ?_⟩
  · -- On the roll the numbers rise with the places.
    refine List.pairwise_iff_getElem.2 fun m n hm hn less => ?_
    obtain ⟨x, live, body⟩ := tidy.live_of_mem_roll (List.getElem_mem hm)
    obtain ⟨y, live', body'⟩ := tidy.live_of_mem_roll (List.getElem_mem hn)
    obtain ⟨i, id⟩ := Block.id_of_alive live.2 body
    obtain ⟨j, id'⟩ := Block.id_of_alive live'.2 body'
    have rising := lt_iff_of_sublist List.filter_sublist tidy.nodup (List.getElem?_eq_getElem hm)
      (List.getElem?_eq_getElem hn) (tidy.named_of_live live id) (tidy.named_of_live live' id')
    rw [live.filed, live'.filed]
    simpa [Block.comesBefore, id, id'] using Nat.le_of_lt (rising.1 less)
  · obtain ⟨x, live⟩ := tidy.live_entry
    obtain ⟨y, live'⟩ := tidy.live_exit
    refine List.pairwise_pair.2 ?_
    rw [live.filed, live'.filed]
    simp [Block.comesBefore, tidy.id_eq_none live (by decide), tidy.id_eq_none live' (by decide),
      tidy.kind_eq live, tidy.kind_eq live', BlockKind.ofHandle, Graph.entry, Graph.exit, Block.comesBefore.rank]
  · obtain ⟨x, live, body⟩ := tidy.live_of_mem_roll left
    obtain ⟨i, id⟩ := Block.id_of_alive live.2 body
    obtain ⟨y, live'⟩ := tidy.mem_order.1 (List.mem_append_right g.roll right)
    have low : k < 2 := by
      obtain rfl | rfl : k = Graph.entry ∨ k = Graph.exit := by simpa using right
      all_goals decide
    rw [live.filed, live'.filed]
    simp [Block.comesBefore, id, tidy.id_eq_none live' low]

/-- No two live blocks can change places. -/
theorem eq_of_comesBefore (live : g.Live h x) (live' : g.Live k y) (le : x.comesBefore y = true)
    (ge : y.comesBefore x = true) : h = k := by
  unfold Block.comesBefore at le ge
  cases id : x.id with
  | some i =>
    cases id' : y.id with
    | some j =>
      simp only [id, id', decide_eq_true_eq] at le ge
      obtain rfl : i = j := by omega
      exact Option.some.inj ((tidy.named_of_live live id).symm.trans (tidy.named_of_live live' id'))
    | none => simp [id, id'] at ge
  | none =>
    cases id' : y.id with
    | some j => simp [id, id'] at le
    | none =>
      -- Without a number, only the two ends of the function are alive.
      have low : ∀ {h x}, g.Live h x → x.id = none → h < 2 := by
        intro h x live id
        refine Nat.lt_of_not_le fun high => ?_
        have body := (tidy.kind_eq live).trans (BlockKind.ofHandle_eq_body.2 high)
        have alive := live.2
        simp [Block.isAlive, body, id] at alive
      simp only [id, id', tidy.kind_eq live, tidy.kind_eq live', decide_eq_true_eq] at le ge
      have hh := low live id
      have hk := low live' id'
      obtain rfl | rfl : h = 0 ∨ h = 1 := by omega
      all_goals obtain rfl | rfl : k = 0 ∨ k = 1 := by omega
      all_goals simp_all [BlockKind.ofHandle, Block.comesBefore.rank]

/-- The labels that are printed for a list of neighbours. -/
theorem sortedLabels_ok (nodup : hs.Nodup) (alive : ∀ h ∈ hs, ∃ x, g.Live h x) :
    g.sortedLabels hs = .ok ((g.order.filter (· ∈ hs)).filterMap g.title?) := by
  have found : hs.mapM (fun h => return (h, ← g.find h)) =
      (.ok (hs.map g.filed) : Except Fault (List (Nat × Block))) := by
    refine mapM_ok fun h member => ?_
    obtain ⟨x, live⟩ := alive h member
    rw [find_eq_ok.2 live.1, live.filed]
    rfl
  have kept : (hs.map g.filed).filter (·.2.isAlive) = hs.map g.filed := by
    refine List.filter_eq_self.2 fun a member => ?_
    obtain ⟨h, inside, rfl⟩ := List.mem_map.1 member
    obtain ⟨x, live⟩ := alive h inside
    rw [live.filed]
    exact live.2
  -- two sorted lists of the same members are equal, since the order tells live blocks apart
  have sorted : (hs.map g.filed).mergeSort (fun a b => a.2.comesBefore b.2) =
      (g.order.filter (· ∈ hs)).map g.filed := by
    refine List.Perm.eq_of_pairwise (fun a b left right
      (le : a.2.comesBefore b.2 = true) (ge : b.2.comesBefore a.2 = true) => ?_) ?_ ?_ ?_
    · obtain ⟨h, inside, rfl⟩ := List.mem_map.1 (List.mem_mergeSort.1 left)
      obtain ⟨k, inside', rfl⟩ := List.mem_map.1 right
      obtain ⟨x, live⟩ := alive h inside
      obtain ⟨y, live'⟩ := tidy.mem_order.1 (List.mem_filter.1 inside').1
      rw [live.filed, live'.filed] at le ge
      rw [tidy.eq_of_comesBefore live live' le ge]
    · apply List.pairwise_mergeSort
      · exact fun a b c => Block.comesBefore_trans
      · exact fun a b => Block.comesBefore_total a.2 b.2
    · exact tidy.order_sorted.sublist (List.filter_sublist.map g.filed)
    · refine (List.mergeSort_perm _ _).trans (List.Perm.map _ ?_)
      refine (List.perm_ext_iff_of_nodup nodup (tidy.order_nodup.filter _)).2 fun h => ?_
      rw [List.mem_filter, tidy.mem_order, decide_eq_true_eq]
      exact (and_iff_right_of_imp (alive h)).symm
  rw [sortedLabels, found]
  show Except.ok _ = _
  rw [kept, sorted, List.filterMap_map]
  rfl

end Tidy

end Graph

end Flowgraph
