import Flowgraph.Proofs.Views

/-!
# The pipeline does not fail

Every function of a source file has a graph, the graph can be pruned, and what comes out can be
written in every form.  The step that could go wrong is the second pass, which asks each block
without text for the way out of it and takes the first one that it finds.  That there is one, that it
is the only one and that it does not lead back at once is not a matter of one block: it holds because
`Elidable` holds after every bypass.
-/

namespace Flowgraph

namespace Graph

variable {g g₁ : Graph} {f : SourceFunction} {h : Nat} {x : Block} {hs : List Nat}

/-- Every live block without text leads to one block, which is another one. -/
def Drains (g : Graph) : Prop :=
  ∀ h x, g.live? h = some x → x.kind = .body → x.lines = [] →
    ∃ next, x.successors = .singleton next ∧ next ≠ h

theorem Elidable.drains (elidable : g.Elidable) : g.Drains := by
  intro h x known body empty
  obtain ⟨next, ends, other⟩ := elidable.tidy.goes_of_empty elidable.rises known body empty
  cases ends with
  | goes successors => exact ⟨next, successors, other⟩

/-- However many of the empty blocks are bypassed, the others can be bypassed as well. -/
theorem Elidable.drains_after (elidable : g.Elidable) (count : Nat) :
    ∃ g₁, (g.hollow.take count).forM bypass g = .ok () g₁ ∧ g₁.Drains := by
  have nodup : g.hollow.Nodup := (elidable.tidy.nodup.filter _).filter _
  obtain ⟨g₁, run, elided⟩ := elidable.bypasses_run (nodup.sublist (List.take_sublist count _))
    fun h member => List.mem_of_mem_take member
  exact ⟨g₁, run, (elidable.elided elided).drains⟩

end Graph

namespace SourceFunction

/-- The graphs of any functions can be pruned and drawn together. -/
theorem programDot_ok (fs : List SourceFunction) (sourceFile : String) (globals : List String)
    (options : Render.DotOptions) :
    ∃ built text, fs.mapM prunedGraph = .ok built ∧
      (∀ f ∈ fs, ∃ entry ∈ built, f.prunedGraph = .ok entry) ∧
      Render.programDot { sourceFile, globals, functions := built.map Prod.fst } options =
        .ok text := by
  choose pruned report run _ views using prunedGraph_views
  let built := fs.map fun f => (pruned f, report f)
  have shown : ∀ g ∈ built.map Prod.fst, ∃ r arrows, Views g r arrows := by
    intro g member
    obtain ⟨entry, inside, rfl⟩ := List.mem_map.1 member
    obtain ⟨f, -, rfl⟩ := List.mem_map.1 inside
    exact ⟨_, _, views f⟩
  obtain ⟨text, drawn⟩ :=
    Program.dot_ok (p := { sourceFile, globals, functions := built.map Prod.fst }) shown options
  exact ⟨built, text, mapM_ok fun f _ => run f,
    fun f member => ⟨_, List.mem_map.2 ⟨f, member, rfl⟩, run f⟩, drawn⟩

/-- **The pipeline does not fail**: the graph of a function is built and pruned, and the pruned graph
is written as text, as plain data and as statistics, and drawn together with those of any other
functions.  After the first pass, and after every step of the second, each live block without text
leads to one other block. -/
theorem pipeline_ok (f : SourceFunction) :
    ∃ g₀ g report, f.graph = .ok g₀ ∧ Graph.prune g₀ = .ok report g ∧
      (∃ text, Render.graphText g = .ok text) ∧ (∃ record, g.record = .ok record) ∧
      (∃ stats, g.stats = .ok stats) ∧
      (∀ (before after : List SourceFunction) (sourceFile : String) (globals : List String)
        (options : Render.DotOptions), ∃ built text,
        (before ++ f :: after).mapM prunedGraph = .ok built ∧
          (g, report) ∈ built ∧ Render.programDot
            { sourceFile, globals, functions := built.map Prod.fst } options = .ok text) ∧
      ∃ n g₁ blocks, Graph.dropUnreachable g₀ = .ok n g₁ ∧ g₁.alive = .ok blocks ∧
        ∀ count, ∃ g₂, ((blocks.filter (·.2.lines.isEmpty)).take count).forM
          (fun block => Graph.bypass block.1) g₁ = .ok () g₂ ∧ g₂.Drains := by
  obtain ⟨g₀, live, g₁, g₂, g₃, report, run, draws, reached, stages, run'⟩ := f.prunedGraph_stages
  have mine := prunedGraph_of_run run run'
  obtain ⟨g, report', again, -, views⟩ := f.prunedGraph_views
  cases mine.symm.trans again
  refine ⟨g₀, _, report, run, run', ⟨_, views.text⟩, ⟨_, views.record⟩, ?_, ?_, ?_⟩
  · obtain ⟨stats, counted, -⟩ := views.stats
    exact ⟨stats, counted⟩
  · intro before after sourceFile globals options
    obtain ⟨built, text, runs, listed, drawn⟩ :=
      programDot_ok (before ++ f :: after) sourceFile globals options
    obtain ⟨entry, member, own⟩ := listed f (by simp)
    cases own.symm.trans mine
    exact ⟨built, text, runs, member, drawn⟩
  · have elidable := stages.swept.elidable draws reached
    refine ⟨report.unreachable, g₁, _, stages.drop, elidable.tidy.alive_eq, fun count => ?_⟩
    obtain ⟨g₂, walk, drains⟩ := elidable.drains_after count
    refine ⟨g₂, ?_, drains⟩
    rw [Graph.hollow_filed, ← List.map_take, Edit.forM_map]
    exact walk

end SourceFunction

end Flowgraph
