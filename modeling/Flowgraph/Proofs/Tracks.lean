import Flowgraph.Proofs.Canonical
import Flowgraph.Proofs.Chains
import Flowgraph.Proofs.SourceOrder

/-!
# Pruning keeps the text

From the graph that the sweep leaves to the pruned graph no text is lost, repeated or put in another
order.  Each block of the pruned graph holds the text of the blocks on a path of the swept graph, its
track, and every block with text is on one track only.

A track is a chain of the graph without empty blocks with the empty blocks put back between its
members.  So it is found from the end: `Elides.unfold` puts one block back, and nothing but empty
blocks is added on the way.
-/

namespace Flowgraph

namespace Graph

variable {g g' g₁ : Graph} {f : SourceFunction} {h k next : Nat} {x y : Block} {hs l : List Nat}
  {chain : Nat → List Nat}

/-- Each block of `g'` holds the text of a path of `g`, and every block of `g` with text is on one of
these paths, once. -/
structure Tracks (g : Graph) (track : Nat → List Nat) (g' : Graph) : Prop where
  starts : ∀ h, (g'.live? h).isSome → (track h).head? = some h
  runs : ∀ h, (g'.live? h).isSome → (track h).IsChain g.Flow
  within : ∀ h, (g'.live? h).isSome → ∀ k ∈ track h, (g.live? k).isSome
  lines : ∀ h y, g'.live? h = some y → y.lines = (track h).flatMap g.text
  once : ∀ k x, g.live? k = some x → x.lines ≠ [] →
    ∃ h, (g'.live? h).isSome ∧ (track h).count k = 1 ∧
      ∀ h', (g'.live? h').isSome → k ∈ track h' → h' = h

/-! ## Chains are tracks -/

theorem Chain.starts (chain : g.Chain h l) : l.head? = some h := by
  cases chain <;> rfl

theorem Chain.runs (chain : g.Chain h l) : l.IsChain g.Flow := by
  induction chain with
  | last => exact .singleton _
  | @link h b l chained rest ih =>
    refine List.isChain_cons.2 ⟨fun v first => ?_, ih⟩
    rw [rest.starts] at first
    cases first
    exact (chained.leads b).2 rfl

/-- Only body blocks are on a chain with others. -/
theorem Chain.body (chain : g.Chain h l) (member : k ∈ l) (away : k ≠ h) :
    ∃ x, g.live? h = some x ∧ x.kind = .body := by
  cases chain with
  | last => exact absurd (List.mem_singleton.1 member) away
  | link chained => exact chained.first

theorem Collapsed.tracks (collapsible : g.Collapsible) (collapsed : g.Collapsed chain g')
    (texts : ∀ k x, g.live? k = some x → x.lines ≠ [] → x.kind = .body) : g.Tracks chain g' := by
  have chains : ∀ h, (g'.live? h).isSome → g.Chain h (chain h) := fun h alive =>
    (collapsed.chains h alive _).2 rfl
  have nodup : (g'.roll.flatMap chain).Nodup := collapsed.all.nodup_iff.2 collapsible.roll_nodup
  obtain ⟨each, apart⟩ := List.nodup_flatMap.1 nodup
  refine ⟨fun h alive => (chains h alive).starts, fun h alive => (chains h alive).runs,
    fun h alive => (chains h alive).mem_live ((collapsed.remains h).1 alive).1, fun h y found => ?_,
    fun k x known filled => ?_⟩
  · obtain ⟨x, last, z, -, -, -, rfl⟩ := collapsed.holds h y found
    rfl
  · have body := texts k x known filled
    have listed := collapsed.all.mem_iff.2 (collapsible.mem_roll known body)
    obtain ⟨h, member, inside⟩ := List.mem_flatMap.1 listed
    refine ⟨h, (List.mem_filter.1 member).2, List.count_eq_one_of_mem (each h member) inside,
      fun h' alive inside' => ?_⟩
    have member' : h' ∈ g'.roll := by
      refine List.mem_filter.2 ⟨?_, alive⟩
      rw [collapsed.reworks.table]
      obtain ⟨y, known', body'⟩ : ∃ y, g.live? h' = some y ∧ y.kind = .body := by
        by_cases same : k = h'
        · exact ⟨x, same ▸ known, body⟩
        · exact (chains h' alive).body inside' same
      exact (List.mem_filter.1 (collapsible.mem_roll known' body')).1
    -- two chains with a block in common are the same chain, since no block is listed twice
    by_contra other
    have : Std.Symm (Function.onFun List.Disjoint chain) := ⟨fun _ _ disjoint => disjoint.symm⟩
    exact apart.forall member' member other inside' inside

/-! ## Empty blocks on a track -/

/-- A path around a bypassed block is a path with that block put back. -/
theorem Elides.unfold (tidy : g.Tidy) (elides : g.Elides h next g') (runs : l.IsChain g'.Flow)
    (within : ∀ k ∈ l, (g'.live? k).isSome) :
    ∃ l' : List Nat, l'.IsChain g.Flow ∧ l'.head? = l.head? ∧ l'.filter (· ≠ h) = l ∧
      ∀ k ∈ l', (g.live? k).isSome := by
  induction runs with
  | nil => exact ⟨[], .nil, rfl, rfl, by simp⟩
  | singleton a =>
    obtain ⟨away, alive⟩ := (elides.isSome_iff tidy).1 (within a List.mem_cons_self)
    exact ⟨[a], .singleton a, rfl, by simp [away], by simpa using alive⟩
  | @cons_cons a b rest flow _ ih =>
    obtain ⟨l', runs', first, back, within'⟩ := ih fun k member =>
      within k (List.mem_cons_of_mem a member)
    obtain ⟨away, alive⟩ := (elides.isSome_iff tidy).1 (within a List.mem_cons_self)
    obtain ⟨-, w, flow', eq⟩ := (elides.flow_iff tidy).1 flow
    by_cases through : w = h
    · -- The edge is one that was led around the block, which comes between its ends.
      subst through
      rw [past_self] at eq
      subst eq
      refine ⟨a :: w :: l', ?_, rfl, by simp [away, ← back], by simpa [alive, elides.alive] using within'⟩
      refine .cons_cons flow' (List.isChain_cons.2 ⟨fun v there => ?_, runs'⟩)
      rw [first] at there
      cases there
      exact elides.flow_self_iff.2 rfl
    · rw [past_of_ne through] at eq
      subst eq
      refine ⟨a :: l', ?_, rfl, by simp [away, ← back], by simpa [alive] using within'⟩
      refine List.isChain_cons.2 ⟨fun v there => ?_, runs'⟩
      rw [first] at there
      cases there
      exact flow'

theorem Elidable.unfold (elidable : g.Elidable) (elided : Elided hs g g')
    (runs : l.IsChain g'.Flow) (within : ∀ k ∈ l, (g'.live? k).isSome) :
    ∃ l' : List Nat, l'.IsChain g.Flow ∧ l'.head? = l.head? ∧ l'.filter (· ∉ hs) = l ∧
      ∀ k ∈ l', (g.live? k).isSome := by
  induction elided with
  | nil => exact ⟨l, runs, rfl, by simp, within⟩
  | @cons h next hs g g₁ g' first _ ih =>
    obtain ⟨l₁, runs₁, starts₁, back₁, within₁⟩ := ih (elidable.elides first) runs within
    obtain ⟨l', runs', starts', back', within'⟩ := first.unfold elidable.tidy runs₁ within₁
    refine ⟨l', runs', starts'.trans starts₁, ?_, within'⟩
    rw [← back₁, ← back', List.filter_filter]
    refine List.filter_congr fun k _ => ?_
    simp [Bool.and_comm]

/-- Blocks without text can be left out. -/
theorem flatMap_filter {p : Nat → Bool} {text : Nat → List String}
    (empty : ∀ k, p k = false → text k = []) : (l.filter p).flatMap text = l.flatMap text := by
  induction l with
  | nil => rfl
  | cons k rest ih =>
    rw [List.filter_cons]
    split
    case isTrue => rw [List.flatMap_cons, List.flatMap_cons, ih]
    case isFalse out => rw [List.flatMap_cons, ih, empty k (by simpa using out), List.nil_append]

/-- The empty blocks are put back into the tracks. -/
theorem Elidable.tracks {track : Nat → List Nat} (elidable : g.Elidable)
    (elided : Elided g.hollow g g₁) (tracks : g₁.Tracks track g') : ∃ track', g.Tracks track' g' := by
  -- a block that is gone has no track to unfold, and any list will do for it
  have unfolds : ∀ h, ∃ l : List Nat, (g'.live? h).isSome → l.IsChain g.Flow ∧ l.head? = some h ∧
      l.filter (· ∉ g.hollow) = track h ∧ ∀ k ∈ l, (g.live? k).isSome := by
    intro h
    by_cases alive : (g'.live? h).isSome
    · obtain ⟨l, runs, starts, back, within⟩ :=
        elidable.unfold elided (tracks.runs h alive) (tracks.within h alive)
      exact ⟨l, fun _ => ⟨runs, starts.trans (tracks.starts h alive), back, within⟩⟩
    · exact ⟨[], fun there => absurd there alive⟩
  choose track' unfolds using unfolds
  have kept : ∀ k, k ∉ g.hollow → g₁.text k = g.text k := fun k away => by
    rw [text, text, elidable.lines_elided elided, if_neg away]
  have empty : ∀ k, k ∈ g.hollow → g.text k = [] := fun k inside => by
    obtain ⟨-, x, known, empty⟩ := mem_hollow.1 inside
    rw [text_of_live known, empty]
  refine ⟨track', fun h alive => (unfolds h alive).2.1, fun h alive => (unfolds h alive).1,
    fun h alive => (unfolds h alive).2.2.2, fun h y found => ?_, fun k x known filled => ?_⟩
  · obtain ⟨-, -, back, -⟩ := unfolds h (by simp [found])
    have same : (track h).flatMap g₁.text = (track h).flatMap g.text := by
      refine List.flatMap_congr fun k member => kept k ?_
      rw [← back, List.mem_filter] at member
      simpa using member.2
    rw [tracks.lines h y found, same, ← back]
    exact flatMap_filter fun k inside => empty k (by simpa using inside)
  · have away : k ∉ g.hollow := fun inside => filled (by rw [← text_of_live known, empty k inside])
    have stays := elidable.lines_elided elided (k := k)
    rw [if_neg away, known] at stays
    obtain ⟨x₁, known₁, same⟩ := Option.map_eq_some_iff.1 stays
    obtain ⟨h, alive, count, sole⟩ := tracks.once k x₁ known₁ (same ▸ filled)
    refine ⟨h, alive, ?_, fun h' alive' member => sole h' alive' ?_⟩
    · rw [← count, ← (unfolds h alive).2.2.1, List.count_filter (by simpa using away)]
    · rw [← (unfolds h' alive').2.2.1]
      exact List.mem_filter.2 ⟨member, by simpa using away⟩

/-! ## The passes -/

theorem Tidy.body_of_lines (tidy : g.Tidy) (known : g.live? k = some x) (filled : x.lines ≠ []) :
    x.kind = .body := by
  match k with
  | 0 =>
    obtain ⟨next, known'⟩ := tidy.entry
    cases known.symm.trans known'
    exact absurd rfl filled
  | 1 =>
    cases known.symm.trans tidy.exit
    exact absurd rfl filled
  | k + 2 => exact tidy.kinds (k + 2) x (live?_eq_some.1 known).1

/-- From the swept graph to the graph that is left, the text stays. -/
theorem Stages.tracks {g₀ g₁ g₂ g₃ : Graph} {live : List Nat} {report : PruneReport}
    (draws : g₀.Draws f) (reached : g₀.Reached live) (stages : g₀.Stages live g₁ g₂ g₃ report) :
    ∃ track, g₁.Tracks track g₃ := by
  have elidable := stages.swept.elidable draws reached
  have mergeable := elidable.mergeable stages.elided
  have collapsible := mergeable.collapsible
  obtain ⟨⟨chain, collapsed⟩, -⟩ :=
    collapsible.collapsed_merged stages.merged (collapsible.not_absorbable stages.merged)
  exact elidable.tracks stages.elided (collapsed.tracks collapsible fun k x known filled =>
    mergeable.tidy.body_of_lines known filled)

end Graph

/-- **No text is lost, repeated or put in another order.**  The blocks of the graph of a function
hold, in the order of their numbers, the text of the parts that are built in source order.  Of the
blocks that the first pass leaves, those with text are on one track each, and the text of a track is
that of the pruned block at its start. -/
theorem SourceFunction.text_kept (f : SourceFunction) :
    ∃ g₀ blocks, f.graph = .ok g₀ ∧ g₀.table.mapM g₀.find = .ok blocks ∧
      blocks.flatMap Block.lines = fragmentsOf f.body.built ∧
      ∃ n g₁ g report track, Graph.dropUnreachable g₀ = .ok n g₁ ∧
        f.prunedGraph = .ok (g, report) ∧ g₁.Tracks track g := by
  obtain ⟨g₀, live, g₁, g₂, g₃, report, run, draws, reached, stages, pruned⟩ := f.prunedGraph_stages
  obtain ⟨track, tracks⟩ := stages.tracks draws reached
  refine ⟨g₀, _, run, draws.find_all, ?_, report.unreachable, g₁, _, report, track, stages.drop,
    prunedGraph_of_run run pruned, ?_⟩
  · rw [← draws.text, List.flatMap_map]
    exact List.flatMap_congr fun h _ => (Graph.fragments_eq h).symm
  · exact ⟨tracks.starts, tracks.runs, tracks.within, tracks.lines, tracks.once⟩

end Flowgraph
