import Flowgraph.Proofs.Counterparts
import Flowgraph.Proofs.Printing

/-!
# Dead code is not seen

A statement that always returns makes dead code of what stands behind it in its sequence.  Some of
this code is never built, because the current block is sealed; some is, because it stands behind an
`if` with two arms that return.  Either way nothing of it is left when the graph is pruned.
-/

namespace Flowgraph

namespace Statement

/-- Somewhere in the statement, what stands behind an always-returning statement of a sequence was
replaced. -/
inductive Replaced : Statement → Statement → Prop where
  | behind {s : Statement} (before after after' : List Statement) (location : Option Location)
      (returns : AlwaysReturns s) :
      Replaced (.sequence (before ++ [s] ++ after) location)
        (.sequence (before ++ [s] ++ after') location)
  | sequence {s s' : Statement} (before after : List Statement) (location : Option Location)
      (inside : Replaced s s') :
      Replaced (.sequence (before ++ s :: after) location) (.sequence (before ++ s' :: after) location)
  | thenArm {s s' : Statement} (condition : List String) (alternate : Option Statement)
      (location : Option Location) (inside : Replaced s s') :
      Replaced (.branch condition s alternate location) (.branch condition s' alternate location)
  | elseArm {s s' : Statement} (condition : List String) (consequent : Statement)
      (location : Option Location) (inside : Replaced s s') :
      Replaced (.branch condition consequent (some s) location)
        (.branch condition consequent (some s') location)
  | whileLoop {s s' : Statement} (condition : List String) (location : Option Location)
      (inside : Replaced s s') :
      Replaced (.whileLoop condition s location) (.whileLoop condition s' location)
  | forLoop {s s' : Statement} (init : Option (List String)) (condition : List String)
      (update : Option (List String)) (location : Option Location) (inside : Replaced s s') :
      Replaced (.forLoop init condition update s location)
        (.forLoop init condition update s' location)

variable {s s' : Statement}

theorem Twin.prepend {rest rest' : List Statement} {location : Option Location}
    (before : List Statement) (twin : Twin (.sequence rest location) (.sequence rest' location)) :
    Twin (.sequence (before ++ rest) location) (.sequence (before ++ rest') location) := by
  induction before with
  | nil => exact twin
  | cons s before ih => exact .cons (.refl s) ih

theorem Replaced.twin (replaced : Replaced s s') : Twin s s' := by
  induction replaced with
  | behind before after after' location returns =>
    rw [List.append_assoc, List.append_assoc]
    exact .prepend before (.behind after after' location returns (.refl _))
  | sequence before after location _ ih => exact .prepend before (.cons ih (.refl _))
  | thenArm condition alternate location _ ih => exact .branch condition location ih (.refl _)
  | elseArm condition consequent location _ ih => exact .branch condition location (.refl _) ih
  | whileLoop condition location _ ih => exact .whileLoop condition location ih
  | forLoop init condition update location _ ih => exact .forLoop init condition update location ih

end Statement

namespace Graph

variable {g₀ g₀' g g' : Graph} {f f' : SourceFunction} {pairs : List (Nat × Nat)}
  {report report' : PruneReport} {K : Nat → Prop}

/-- Pruning makes doubles of the graphs of twins, and it has as much to do in one as in the other
when the unreachable blocks are gone. -/
theorem Paired.doubles (draws : g₀.Draws f) (draws' : g₀'.Draws f')
    (climbs : Climbs K 1 g₀.table.length 1 g₀'.table.length pairs)
    (paired : Paired g₀ g₀' (Match g₀ g₀') (0, 0) pairs none)
    (pruned : g₀.Pruned (pairs.map Prod.fst) g report)
    (pruned' : g₀'.Pruned (pairs.map Prod.snd) g' report')
    (same : f.name = f'.name ∧ f.returnType = f'.returnType ∧ f.parameters = f'.parameters) :
    Doubles (Corresponds g₀ g₀' pairs) g g' ∧ report.elided = report'.elided ∧
      report.merged = report'.merged ∧ report.surviving = report'.surviving := by
  have reached := reached_fst climbs paired draws
  have reached' := reached_snd climbs paired draws'
  have canonical := pruned.canonical draws reached
  have canonical' := pruned'.canonical draws' reached'
  obtain ⟨name, returnType, parameters, phase⟩ := pruned.signature draws
  obtain ⟨name', returnType', parameters', phase'⟩ := pruned'.signature draws'
  obtain ⟨g₁, g₂, g₃, swept, elided, merged, rfl, elisions, survivors⟩ := pruned.steps
  obtain ⟨g₁', g₂', g₃', swept', elided', merged', rfl, elisions', survivors'⟩ := pruned'.steps
  have elidable := swept.elidable draws reached
  have elidable' := swept'.elidable draws' reached'
  -- The graphs are copies after the sweep, and they stay copies in the passes that follow.
  have copies₁ := swept.copies draws draws' climbs paired swept'
  have copies₂ := copies₁.elided elidable elidable' elided elided' copies₁.hollow
  obtain ⟨merges, copies₃⟩ := copies₂.merged (elidable.mergeable elided)
    (elidable'.mergeable elided') merged merged' copies₂.roll
  refine ⟨⟨canonical, canonical', ?_, ?_, ?_, ?_, phase, phase'⟩, ?_, merges, ?_⟩
  · exact ⟨copies₃.unique, copies₃.entry, copies₃.exit, copies₃.roll, copies₃.blocks⟩
  · rw [name, name', same.1]
  · rw [returnType, returnType', same.2.1]
  · rw [parameters, parameters', same.2.2]
  · rw [elisions, elisions', copies₁.hollow.length_eq]
  · rw [survivors, survivors', copies₃.roll.length_eq]

end Graph

namespace SourceFunction

/-- Functions whose bodies are twins are printed alike. -/
theorem printsAlike_of_twin {f f' : SourceFunction} (twin : f.body.Twin f'.body)
    (same : f.name = f'.name ∧ f.returnType = f'.returnType ∧ f.parameters = f'.parameters) :
    ∃ g report g' report', f.prunedGraph = .ok (g, report) ∧ f'.prunedGraph = .ok (g', report') ∧
      g.PrintsAlike g' ∧ report.elided = report'.elided ∧ report.merged = report'.merged ∧
      report.surviving = report'.surviving := by
  obtain ⟨g₀, run, draws⟩ := f.graph_draws
  obtain ⟨g₀', run', draws'⟩ := f'.graph_draws
  obtain ⟨pairs, climbs, paired⟩ := draws.paired draws' twin
  obtain ⟨g, report, prunes, pruned⟩ :=
    prunedGraph_of_draws run draws (Graph.reached_fst climbs paired draws)
  obtain ⟨g', report', prunes', pruned'⟩ :=
    prunedGraph_of_draws run' draws' (Graph.reached_snd climbs paired draws')
  obtain ⟨doubles, counts⟩ := paired.doubles draws draws' climbs pruned pruned' same
  exact ⟨g, report, g', report', prunes, prunes', doubles.printsAlike, counts⟩

/-- Replacing dead code changes nothing that is printed, and of the report only how many blocks
were created and how many of them were unreachable. -/
theorem printsAlike_of_replaced (f : SourceFunction) {body : Statement}
    (replaced : f.body.Replaced body) :
    ∃ g report g' report', f.prunedGraph = .ok (g, report) ∧
      { f with body }.prunedGraph = .ok (g', report') ∧ g.PrintsAlike g' ∧
      report' = { report with created := report'.created, unreachable := report'.unreachable } := by
  have twin : f.body.Twin ({ f with body } : SourceFunction).body := replaced.twin
  obtain ⟨g, report, g', report', prunes, prunes', alike, elided, merged, surviving⟩ :=
    printsAlike_of_twin twin ⟨rfl, rfl, rfl⟩
  refine ⟨g, report, g', report', prunes, prunes', alike, ?_⟩
  rw [elided, merged, surviving]

/-- A loop that is built behind two returns, and taken out again. -/
theorem printsAlike_loop_behind_returns :
    (Statement.sequence [.branch ["c"] (.ret ["return"] none) (some (.ret ["return"] none)) none,
      .whileLoop ["d"] (.simple ["x"] none) none] none).Replaced
      (.sequence [.branch ["c"] (.ret ["return"] none) (some (.ret ["return"] none)) none] none) ∧
    ∃ g report g' report',
      SourceFunction.prunedGraph ⟨"f", ["int"], [], .sequence
        [.branch ["c"] (.ret ["return"] none) (some (.ret ["return"] none)) none,
          .whileLoop ["d"] (.simple ["x"] none) none] none, none⟩ = .ok (g, report) ∧
      SourceFunction.prunedGraph ⟨"f", ["int"], [], .sequence
        [.branch ["c"] (.ret ["return"] none) (some (.ret ["return"] none)) none] none, none⟩ =
          .ok (g', report') ∧
      g.PrintsAlike g' ∧
      report' = { report with created := report'.created, unreachable := report'.unreachable } := by
  have replaced := Statement.Replaced.behind [] [.whileLoop ["d"] (.simple ["x"] none) none] [] none
    (.branch ["c"] none (.ret ["return"] none) (.ret ["return"] none))
  exact ⟨replaced, printsAlike_of_replaced ⟨"f", ["int"], [], _, none⟩ replaced⟩

end SourceFunction

end Flowgraph
