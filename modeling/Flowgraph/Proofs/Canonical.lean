import Flowgraph.Generate
import Flowgraph.Proofs.Elision
import Flowgraph.Proofs.Merging
import Flowgraph.Proofs.Survivors

/-!
# The canonical form

The last pass numbers the blocks that are left.  `Stages` puts the four passes together, and
`Canonical` says what holds of the graph that comes out of them.
-/

namespace Flowgraph

open Edit

namespace Numbering

variable {l done rest : List Nat} {h i n : Nat}

/-- The numbering that gives the blocks of a list their places in it. -/
def ofRoll (l : List Nat) : Numbering := ⟨l.zipIdx⟩

theorem size_ofRoll (l : List Nat) : (ofRoll l).size = l.length := List.length_zipIdx

theorem lookup_zipIdx (nodup : l.Nodup) :
    (l.zipIdx n).lookup h = some i ↔ n ≤ i ∧ l[i - n]? = some h := by
  induction l generalizing n with
  | nil => simp
  | cons a rest ih =>
    obtain ⟨fresh, nodup⟩ := List.nodup_cons.1 nodup
    rw [List.zipIdx_cons, List.lookup_cons]
    by_cases same : h = a
    · subst same
      simp only [beq_self_eq_true, Option.some.injEq]
      constructor
      · rintro rfl
        simp
      · rintro ⟨low, found⟩
        cases eq : i - n with
        | zero => omega
        | succ j =>
          rw [eq, List.getElem?_cons_succ] at found
          exact absurd (List.mem_of_getElem? found) fresh
    · rw [beq_false_of_ne same, ih nodup]
      constructor
      · rintro ⟨low, found⟩
        have eq : i - n = i - (n + 1) + 1 := by omega
        exact ⟨by omega, by rw [eq, List.getElem?_cons_succ, found]⟩
      · rintro ⟨low, found⟩
        cases eq : i - n with
        | zero =>
          rw [eq, List.getElem?_cons_zero] at found
          exact absurd (Option.some.inj found).symm same
        | succ j =>
          rw [eq, List.getElem?_cons_succ] at found
          have eq' : i - (n + 1) = j := by omega
          exact ⟨by omega, by rw [eq', found]⟩

theorem get?_ofRoll (nodup : l.Nodup) : (ofRoll l).get? h = some i ↔ l[i]? = some h := by
  rw [get?, ofRoll, lookup_zipIdx nodup]
  simp

/-- Numbering one block after the other. -/
theorem foldl_set (nodup : (done ++ rest).Nodup) :
    rest.foldl (fun (n : Numbering) h => n.set h n.size) (ofRoll done) = ofRoll (done ++ rest) := by
  induction rest generalizing done with
  | nil => simp
  | cons h rest ih =>
    have fresh : h ∉ done := fun member =>
      (List.nodup_append.1 nodup).2.2 h member h List.mem_cons_self rfl
    have set : (ofRoll done).set h (ofRoll done).size = ofRoll (done ++ [h]) := by
      have unknown : (ofRoll done).get? h = none :=
        Option.eq_none_iff_forall_ne_some.2 fun i found => fresh <|
          List.mem_of_getElem? ((get?_ofRoll (List.nodup_append.1 nodup).1).1 found)
      rw [Numbering.set, unknown, size_ofRoll]
      simp [ofRoll, List.zipIdx_append]
    rw [List.foldl_cons, set, ih (by simpa using nodup)]
    simp

end Numbering

namespace Graph

variable {g g' : Graph} {f : SourceFunction} {live : List Nat} {h i : Nat}

/-- The last pass ends well. -/
theorem renumber_run (bounded : ∀ h ∈ g.table, h < g.arena.size) (nodup : g.table.Nodup) :
    renumber g = .ok g.roll.length { g with numbering := .ofRoll g.roll } := by
  have alive := alive_ok (g := { g with numbering := {} }) bounded
  have numbering : (g.roll.map g.filed).foldl (fun (n : Numbering) b => n.set b.1 n.size) {} =
      .ofRoll g.roll := by
    rw [List.foldl_map]
    exact @Numbering.foldl_set [] g.roll (nodup.filter _)
  have done : renumber g = .ok (Numbering.ofRoll g.roll).size
      { g with numbering := .ofRoll g.roll } := by
    rw [renumber, bind_ok (modify_run _ g), bind_ok (inspect_ok alive), ← numbering]
    rfl
  rw [done, Numbering.size_ofRoll]

/-- What the four passes make of a graph, step by step. -/
structure Pruned (g : Graph) (live : List Nat) (g' : Graph) (report : PruneReport) : Prop where
  steps : ∃ g₁ g₂ g₃, Swept g (Dropped g live) g₁ ∧
    Elided g₁.hollow g₁ g₂ ∧ Merged g₂.roll report.merged g₂ g₃ ∧
    g' = { g₃ with numbering := .ofRoll g₃.roll, phase := .pruned } ∧
    report.elided = g₁.hollow.length ∧ report.surviving = g₃.roll.length

theorem Swept.elidable {g₁ : Graph} (draws : g.Draws f) (reached : g.Reached live)
    (swept : Swept g (Dropped g live) g₁) : g₁.Elidable where
  tidy := swept.tidy draws reached
  rises := swept.rises draws
  apart := swept.apart draws
  passable := swept.passable draws reached

theorem Elidable.mergeable {g₁ g₂ : Graph} (elidable : g₁.Elidable)
    (elided : Elided g₁.hollow g₁ g₂) : g₂.Mergeable where
  tidy := (elidable.elided elided).tidy
  filled := elidable.filled elided
  passable := (elidable.elided elided).passable

/-- The graphs between the passes, and what each pass answered. -/
structure Stages (g : Graph) (live : List Nat) (g₁ g₂ g₃ : Graph) (report : PruneReport) : Prop where
  drop : dropUnreachable g = .ok report.unreachable g₁
  swept : Swept g (Dropped g live) g₁
  gone : ∃ gone : List Nat, gone.Nodup ∧ (∀ h, h ∈ gone ↔ Dropped g live h) ∧
    report.unreachable = gone.length
  elide : elideEmpty g₁ = .ok report.elided g₂
  elided : Elided g₁.hollow g₁ g₂
  merge : mergeChains g₂ = .ok report.merged g₃
  merged : Merged g₂.roll report.merged g₂ g₃
  created : report.created = g.table.length
  hollow : report.elided = g₁.hollow.length
  surviving : report.surviving = g₃.roll.length

/-- Pruning the graph of a function ends well, one pass after the other. -/
theorem Draws.stages (draws : g.Draws f) (reached : g.Reached live) :
    ∃ g₁ g₂ g₃ report,
      prune g = .ok report { g₃ with numbering := .ofRoll g₃.roll, phase := .pruned } ∧
        g.Stages live g₁ g₂ g₃ report := by
  obtain ⟨gone, g₁, run₁, swept, nodup, dropped⟩ := dropUnreachable_run draws reached
  have elidable := swept.elidable draws reached
  obtain ⟨g₂, run₂, elided⟩ := elidable.elideEmpty_run
  have mergeable := elidable.mergeable elided
  obtain ⟨merged, g₃, run₃, chains, -⟩ := mergeable.collapsible.mergeChains_run
  have tidy := (mergeable.merged chains).tidy
  have run₄ := renumber_run (fun h member => (tidy.inside h member).2) tidy.nodup
  have building : g.phase = .building := congrArg (·.2.2.2.2) draws.heading
  let report : PruneReport :=
    { created := g.table.length
      unreachable := gone.length
      elided := g₁.hollow.length
      merged
      surviving := g₃.roll.length }
  refine ⟨g₁, g₂, g₃, report, ?_, run₁, swept, ⟨gone, nodup, dropped, rfl⟩, run₂, elided, run₃,
    chains, rfl, rfl, rfl⟩
  rw [prune, bind_ok (get_run g), building]
  exact (bind_ok run₁).trans ((bind_ok run₂).trans ((bind_ok run₃).trans (bind_ok run₄)))

theorem Draws.prune_run (draws : g.Draws f) (reached : g.Reached live) :
    ∃ g' report, prune g = .ok report g' ∧ g.Pruned live g' report := by
  obtain ⟨g₁, g₂, g₃, report, run, stages⟩ := draws.stages reached
  exact ⟨_, report, run, g₁, g₂, g₃, stages.swept, stages.elided, stages.merged, rfl, stages.hollow,
    stages.surviving⟩

/-- The canonical form of a graph. -/
structure Canonical (g : Graph) : Prop where
  tidy : g.Tidy
  filled : g.Filled
  passable : g.Passable
  settled : ∀ h next, ¬ g.Merges h next
  numbering : g.numbering = .ofRoll g.roll

theorem Pruned.canonical {report : PruneReport} (draws : g.Draws f) (reached : g.Reached live)
    (pruned : g.Pruned live g' report) : g'.Canonical := by
  obtain ⟨g₁, g₂, g₃, swept, elided, merged, rfl, -⟩ := pruned.steps
  have mergeable := (swept.elidable draws reached).mergeable elided
  obtain ⟨tidy, filled, passable⟩ := mergeable.merged merged
  refine ⟨?_, filled, passable, ?_, rfl⟩
  · exact ⟨tidy.kinds, tidy.nodup, tidy.inside, tidy.numbers, tidy.entry, tidy.exit, tidy.source,
      tidy.flow, tidy.entered, tidy.ends⟩
  · intro h next merges
    have visited : h ∉ g₂.roll → ∀ next, ¬ g₂.Merges h next := fun outside next merges => by
      obtain ⟨x, known, body, -⟩ := merges.leads
      exact outside (mergeable.tidy.mem_roll known body)
    exact mergeable.collapsible.settled merged visited next
      ⟨merges.leads, merges.inner, merges.other, merges.alone⟩

/-- A pruned graph carries the signature of its function. -/
theorem Pruned.signature {report : PruneReport} (draws : g.Draws f)
    (pruned : g.Pruned live g' report) :
    g'.name = f.name ∧ g'.returnType = Fragment.ofTokens f.returnType ∧
      g'.parameters = Fragment.ofTokens f.parameters ∧ g'.phase = .pruned := by
  obtain ⟨g₁, g₂, g₃, swept, elided, merged, rfl, -⟩ := pruned.steps
  have heading := ((swept.reworks.trans elided.reworks).trans merged.reworks).heading.trans
    draws.heading
  exact ⟨congrArg (·.1) heading, congrArg (·.2.1) heading, congrArg (·.2.2.1) heading, rfl⟩

end Graph

namespace SourceFunction

variable {f : SourceFunction} {g₀ : Graph} {live : List Nat}

theorem prunedGraph_of_run {g : Graph} {report : PruneReport} (run : f.graph = .ok g₀)
    (run' : Graph.prune g₀ = .ok report g) : f.prunedGraph = .ok (g, report) := by
  simp only [prunedGraph, run, bind, Except.bind, run']
  rfl

theorem prunedGraph_of_draws (run : f.graph = .ok g₀) (draws : g₀.Draws f)
    (reached : g₀.Reached live) :
    ∃ g report, f.prunedGraph = .ok (g, report) ∧ g₀.Pruned live g report := by
  obtain ⟨g, report, run', pruned⟩ := draws.prune_run reached
  exact ⟨g, report, prunedGraph_of_run run run', pruned⟩

/-- The passes over the graph of a function. -/
theorem prunedGraph_stages (f : SourceFunction) :
    ∃ g₀ live g₁ g₂ g₃ report, f.graph = .ok g₀ ∧ g₀.Draws f ∧ g₀.Reached live ∧
      g₀.Stages live g₁ g₂ g₃ report ∧
      Graph.prune g₀ = .ok report { g₃ with numbering := .ofRoll g₃.roll, phase := .pruned } := by
  obtain ⟨g₀, run, draws⟩ := f.graph_draws
  obtain ⟨live, reached⟩ := draws.reached
  obtain ⟨g₁, g₂, g₃, report, run', stages⟩ := draws.stages reached
  exact ⟨g₀, live, g₁, g₂, g₃, report, run, draws, reached, stages, run'⟩

/-- Every function has a pruned graph. -/
theorem prunedGraph_run (f : SourceFunction) :
    ∃ (g₀ : Graph) (live : List Nat) (g : Graph) (report : PruneReport), g₀.Draws f ∧
      g₀.Reached live ∧ f.prunedGraph = .ok (g, report) ∧ g₀.Pruned live g report := by
  obtain ⟨g₀, run, draws⟩ := f.graph_draws
  obtain ⟨live, reached⟩ := draws.reached
  obtain ⟨g, report, run', pruned⟩ := prunedGraph_of_draws run draws reached
  exact ⟨g₀, live, g, report, draws, reached, run', pruned⟩

end SourceFunction

end Flowgraph
