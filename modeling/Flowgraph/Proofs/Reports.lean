import Flowgraph.Proofs.Canonical
import Flowgraph.Proofs.Chains
import Flowgraph.Proofs.SourceOrder

/-!
# Reports add up

Each pass counts the blocks that it takes out, and leaves their handles in the table.  The counts add
up because the roll, the live blocks of the table, gets shorter by as many blocks as a pass has
counted.  How many blocks there were to begin with is known from the text of the function.
-/

namespace Flowgraph

namespace Graph

variable {g g' g₀ g₁ g₂ g₃ : Graph} {f : SourceFunction} {h n next : Nat} {hs l live : List Nat}
  {report : PruneReport}

/-! ## The roll gets shorter -/

/-- A dropped block is not on the roll any more. -/
theorem Stages.roll_swept (draws : g₀.Draws f) (reached : g₀.Reached live)
    (stages : g₀.Stages live g₁ g₂ g₃ report) :
    report.unreachable + g₁.roll.length = g₀.table.length := by
  obtain ⟨gone, nodup, dropped, count⟩ := stages.gone
  have swept := stages.swept
  have tidy := swept.tidy draws reached
  have others : gone.Perm (g₁.table.filter fun h => !(g₁.live? h).isSome) := by
    refine (List.perm_ext_iff_of_nodup nodup (tidy.nodup.filter _)).2 fun h => ?_
    rw [dropped, List.mem_filter, swept.reworks.table]
    constructor
    · intro out
      obtain ⟨i, named, -⟩ := id out
      refine ⟨List.mem_of_getElem? named, ?_⟩
      cases found : g₁.live? h with
      | none => rfl
      | some x => exact absurd out (swept.of_live draws found).1
    · rintro ⟨member, dead⟩
      obtain ⟨i, named⟩ := List.mem_iff_getElem?.1 member
      refine ⟨i, named, fun inside => ?_⟩
      simp [swept.live_of_named draws inside named] at dead
  have whole := List.length_eq_length_filter_add (l := g₁.table) fun h => (g₁.live? h).isSome
  rw [count, others.length_eq, Graph.roll, ← swept.reworks.table]
  omega

theorem Elides.roll_perm (tidy : g.Tidy) (elides : g.Elides h next g') :
    g.roll.Perm (h :: g'.roll) := by
  obtain ⟨x, known, body, -⟩ := elides.empty
  have nodup : g.roll.Nodup := tidy.nodup.filter _
  rw [elides.roll_eq tidy, ← nodup.erase_eq_filter]
  exact List.perm_cons_erase (tidy.mem_roll known body)

theorem Elidable.roll_elided (elidable : g.Elidable) (elided : Elided hs g g') :
    hs.length + g'.roll.length = g.roll.length := by
  induction elided with
  | nil => exact Nat.zero_add _
  | cons first _ ih =>
    have less := (first.roll_perm elidable.tidy).length_eq
    have rest := ih (elidable.elides first)
    simp only [List.length_cons] at less ⊢
    omega

theorem Collapsible.roll_visited (collapsible : g.Collapsible) (visited : Visited h n g g') :
    n + g'.roll.length = g.roll.length := by
  induction visited with
  | stop => exact Nat.zero_add _
  | step first _ ih =>
    have less := (collapsible.roll_perm first).length_eq
    have rest := ih (collapsible.absorbs first)
    rw [List.length_cons] at less
    omega

theorem Collapsible.roll_merged (collapsible : g.Collapsible) (merged : Merged l n g g') :
    n + g'.roll.length = g.roll.length := by
  induction merged with
  | nil => exact Nat.zero_add _
  | gone _ _ ih => exact ih collapsible
  | visit _ first _ ih =>
    have less := collapsible.roll_visited first
    have rest := ih (collapsible.visited first)
    omega

/-- Every block that was made is taken out by one pass or left. -/
theorem Stages.adds_up (draws : g₀.Draws f) (reached : g₀.Reached live)
    (stages : g₀.Stages live g₁ g₂ g₃ report) :
    report.created = report.unreachable + report.elided + report.merged + report.surviving := by
  have elidable := stages.swept.elidable draws reached
  have collapsible := (elidable.mergeable stages.elided).collapsible
  have first := stages.roll_swept draws reached
  have second := elidable.roll_elided stages.elided
  have third := collapsible.roll_merged stages.merged
  rw [stages.created, stages.hollow, stages.surviving]
  omega

/-! ## What is left -/

/-- A block of the table is live as long as it has a number. -/
theorem Tidy.isSome_number? (tidy : g.Tidy) (member : h ∈ g.table) :
    (g.number? h).isSome = (g.live? h).isSome := by
  obtain ⟨high, bounded⟩ := tidy.inside h member
  obtain ⟨x, core⟩ := Option.isSome_iff_exists.1 (core?_isSome_iff.2 bounded)
  have body : x.kind = .body := (tidy.kinds h x core).trans (BlockKind.ofHandle_eq_body.2 high)
  cases id : x.id <;> simp [number?, live?, core, id, Block.isAlive, body, Option.filter]

theorem Tidy.removed (tidy : g.Tidy) :
    g.table.countP (fun h => (g.number? h).isNone) + g.roll.length = g.table.length := by
  have same : (g.table.filter fun h => (g.number? h).isNone) =
      g.table.filter fun h => !(g.live? h).isSome := by
    refine List.filter_congr fun h member => ?_
    rw [← tidy.isSome_number? member, Option.not_isSome]
  have whole := List.length_eq_length_filter_add (l := g.table) fun h => (g.live? h).isSome
  rw [List.countP_eq_length_filter, same, Graph.roll]
  omega

theorem Tidy.roll_ncard (tidy : g.Tidy) :
    {h | ∃ x, g.live? h = some x ∧ x.kind = .body}.ncard = g.roll.length := by
  have nodup : g.roll.Nodup := tidy.nodup.filter _
  have same : {h | ∃ x, g.live? h = some x ∧ x.kind = .body} = (g.roll.toFinset : Set Nat) := by
    refine Set.ext fun h => ?_
    rw [Finset.mem_coe, List.mem_toFinset]
    constructor
    · rintro ⟨x, known, body⟩
      exact tidy.mem_roll known body
    · intro member
      obtain ⟨listed, alive⟩ := List.mem_filter.1 member
      obtain ⟨x, known⟩ := Option.isSome_iff_exists.1 alive
      exact ⟨x, known, (tidy.kinds h x (live?_eq_some.1 known).1).trans
        (BlockKind.ofHandle_eq_body.2 (tidy.inside h listed).1)⟩
  rw [same, Set.ncard_coe_finset, List.toFinset_card_of_nodup nodup]

end Graph

/-- **Reports add up.**  The blocks that are made are counted by the headers that are built, and each
of them is taken out by one pass or left.  Those that are left are live and numbered, those that were
taken out keep their place in the table without a number. -/
theorem SourceFunction.report_adds_up (f : SourceFunction) :
    ∃ g₀ g report, f.graph = .ok g₀ ∧ Graph.prune g₀ = .ok report g ∧
      report.created = 1 + 3 * f.body.built.countP Part.isBranch +
        3 * f.body.built.countP Part.isWhile + 4 * f.body.built.countP Part.isFor ∧
      report.created = report.unreachable + report.elided + report.merged + report.surviving ∧
      report.surviving = {h | ∃ x, g.live? h = some x ∧ x.kind = .body}.ncard ∧
      report.surviving = g.numbering.size ∧
      report.unreachable + report.elided + report.merged =
        g.table.countP fun h => (g.number? h).isNone := by
  obtain ⟨g₀, live, g₁, g₂, g₃, report, run, draws, reached, stages, run'⟩ := f.prunedGraph_stages
  have mergeable := (stages.swept.elidable draws reached).mergeable stages.elided
  have tidy := (mergeable.merged stages.merged).tidy
  have reworks := (stages.swept.reworks.trans stages.elided.reworks).trans stages.merged.reworks
  have whole := stages.adds_up draws reached
  have removed := tidy.removed
  refine ⟨g₀, _, report, run, run', ?_, whole, ?_, ?_, ?_⟩
  · rw [stages.created, draws.created, blocksOf_eq]
    omega
  · exact stages.surviving.trans tidy.roll_ncard.symm
  · rw [stages.surviving]
    exact (Numbering.size_ofRoll _).symm
  · have length : g₃.table.length = report.created := by rw [reworks.table, stages.created]
    rw [length, ← stages.surviving, whole] at removed
    exact (Nat.add_right_cancel removed).symm

end Flowgraph
