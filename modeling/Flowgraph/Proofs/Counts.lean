import Flowgraph.Proofs.Contents
import Flowgraph.Proofs.Views

/-!
# What the statistics count

Every loop of a function that control can come to has its header in one block, and this block is
counted.  Every return ends one block, but it is counted only if this block has not grown: a block
that absorbs another one takes over its targets, not its flag.
-/

namespace Flowgraph

section Lists

variable {α β : Type} {l : List α} {p q : α → Bool}

/-- A count over lists in a row, each of which counts for one at most. -/
theorem countP_flatMap_of_each {r : β → Bool} {k : α → List β}
    (each : ∀ a ∈ l, (k a).countP r = if p a then 1 else 0) :
    (l.flatMap k).countP r = l.countP p := by
  induction l with
  | nil => rfl
  | cons a l ih =>
    have first := each a List.mem_cons_self
    have rest := ih fun b member => each b (List.mem_cons_of_mem _ member)
    rw [List.flatMap_cons, List.countP_append, first, rest, List.countP_cons, Nat.add_comm]

/-- A stronger condition holds as often only if it holds in the same places. -/
theorem countP_eq_countP_iff (implies : ∀ a ∈ l, p a = true → q a = true) :
    l.countP p = l.countP q ↔ ∀ a ∈ l, q a = true → p a = true := by
  constructor
  · intro same a member holds
    obtain ⟨before, after, rfl⟩ := List.append_of_mem member
    have first := List.countP_mono_left fun b inside =>
      implies b (List.mem_append_left (a :: after) inside)
    have second := List.countP_mono_left fun b inside =>
      implies b (List.mem_append_right before (List.mem_cons_of_mem a inside))
    rw [List.countP_append, List.countP_append, List.countP_cons, List.countP_cons, holds] at same
    -- Both counts grow from one part of the list to the next, so a gap at `a` is never made up.
    by_contra fails
    rw [if_neg fails, if_pos rfl] at same
    omega
  · intro same
    exact List.countP_congr fun a member => ⟨implies a member, same a member⟩

end Lists

namespace Shuts

variable {text : Nat → List String} {held passed : List Part} {part : Part} {e : Ending Nat}
  {x : Block}

theorem countP_passed (passes : ∀ p ∈ passed, p.Passes) :
    passed.countP Part.isLoop = 0 ∧ passed.countP Part.isReturn = 0 := by
  constructor
  · exact List.countP_eq_zero.2 fun p inside => by simp [(passes p inside).1]
  · exact List.countP_eq_zero.2 fun p inside => by simp [(passes p inside).2.1]

theorem not_isReturn_of_isLoop (isLoop : part.isLoop = true) : part.isReturn = false := by
  cases part with
  | whileHeader | forHeader => rfl
  | simple | ret | clause | branch => cases isLoop

/-- A block has a place to go to behind a loop if and only if it holds the header of the loop. -/
theorem countP_isLoop (shuts : Shuts text held e) (ends : x.Ends e) :
    held.countP Part.isLoop = if x.loopExit.isSome then 1 else 0 := by
  cases shuts with
  | goes passes =>
    cases ends with
    | goes _ _ _ noExit => simp [noExit, (countP_passed passes).1]
  | returns tokens passes =>
    cases ends with
    | goes _ _ _ noExit => simp [noExit, (countP_passed passes).1, Part.isLoop]
  | branches passes =>
    cases ends with
    | branches _ _ _ noExit => simp [noExit, (countP_passed passes).1, Part.isLoop]
  | loops passes isLoop =>
    cases ends with
    | loops _ _ _ _ isExit => simp [isExit, (countP_passed passes).1, isLoop]

/-- A return is the last part of its block. -/
theorem countP_isReturn (shuts : Shuts text held e) :
    held.countP Part.isReturn = if endsInReturn held then 1 else 0 := by
  cases shuts with
  | goes passes => simp [endsInReturn_of_passes passes, (countP_passed passes).2]
  | returns tokens passes =>
    simp [endsInReturn_append_singleton, (countP_passed passes).2, Part.isReturn]
  | branches passes =>
    simp [endsInReturn_append_singleton, (countP_passed passes).2, Part.isReturn]
  | loops passes isLoop =>
    simp [endsInReturn_append_singleton, (countP_passed passes).2, not_isReturn_of_isLoop isLoop]

end Shuts

namespace Graph

variable {g g₀ : Graph} {parts : List Part} {C : Nat → List Part} {h : Nat} {x : Block}

/-- What the statistics of the pruned graph `g` count, which was `g₀` before: its blocks hold these
parts, each of them once. -/
structure Counted (g₀ g : Graph) (parts : List Part) (contents : Nat → List Part) : Prop where
  stats : g.stats = .ok g.counts
  all : (g.roll.flatMap contents).Perm parts
  lines : ∀ h x, g.Live h x → x.kind = .body → x.lines = fragmentsOf (contents h)
  /-- The flag of a return is set if the block ends in a return and holds what it held before. -/
  sealing : ∀ h x, g.Live h x → x.kind = .body → ∃ z, g₀.core? h = some z ∧
    (x.sealed = true ↔ endsInReturn (contents h) = true ∧ x.lines = z.lines)
  loops : g.counts.loopHeaders = parts.countP Part.isLoop
  returns : (g.roll.countP fun h => endsInReturn (contents h)) = parts.countP Part.isReturn
  atMost : g.counts.returningBlocks ≤ parts.countP Part.isReturn
  /-- All returns are counted if no block that ends in a return has grown. -/
  exact : g.counts.returningBlocks = parts.countP Part.isReturn ↔
    ∀ h x z, g.Live h x → x.kind = .body → g₀.core? h = some z →
      endsInReturn (contents h) = true → x.lines = z.lines

theorem Stocked.counted (stocked : Stocked g₀ g parts C) (canonical : g.Canonical) :
    Counted g₀ g parts C := by
  -- The blocks on the roll are live.
  have listed : ∀ h ∈ g.roll, ∃ x, g.Live h x ∧ x.kind = .body ∧ (g.filed h).2 = x := by
    intro h member
    obtain ⟨inTable, alive⟩ := List.mem_filter.1 member
    obtain ⟨x, live⟩ := live_of_isSome (g := g) (h := h) (by simpa using alive)
    have body := canonical.tidy.kinds h x.core (live?_eq_some.1 live.core).1
    rw [BlockKind.ofHandle_eq_body.2 (canonical.tidy.inside h inTable).1] at body
    exact ⟨x, live, body, by rw [live.filed]⟩
  have sealing : ∀ h x, g.Live h x → x.kind = .body → ∃ z, g₀.core? h = some z ∧
      (x.sealed = true ↔ endsInReturn (C h) = true ∧ x.lines = z.lines) := by
    intro h x live body
    obtain ⟨z, core, -, flag⟩ := stocked.sealing h x.core live.core body
    exact ⟨z, core, flag⟩
  have loops : g.counts.loopHeaders = parts.countP Part.isLoop := by
    rw [← stocked.all.countP_eq]
    refine (countP_flatMap_of_each fun h member => ?_).symm
    obtain ⟨x, live, body, eq⟩ := listed h member
    obtain ⟨e, ends, shuts⟩ := stocked.shuts_live canonical live body
    rw [eq, shuts.countP_isLoop ends]
  have returns : (g.roll.countP fun h => endsInReturn (C h)) = parts.countP Part.isReturn := by
    rw [← stocked.all.countP_eq]
    refine (countP_flatMap_of_each fun h member => ?_).symm
    obtain ⟨x, live, body, -⟩ := listed h member
    obtain ⟨e, -, shuts⟩ := stocked.shuts_live canonical live body
    exact shuts.countP_isReturn
  -- A flag is set only where a return is the last part, so the flags may count too few.
  have implies : ∀ h ∈ g.roll, (g.filed h).2.sealed = true → endsInReturn (C h) = true := by
    intro h member flag
    obtain ⟨x, live, body, eq⟩ := listed h member
    obtain ⟨z, -, sealed⟩ := sealing h x live body
    rw [eq] at flag
    exact (sealed.1 flag).1
  refine ⟨canonical.stats_eq, stocked.all, ?_, sealing, loops, returns, ?_, ?_⟩
  · exact fun h x live body => stocked.lines h x.core live.core body
  · rw [← returns]
    exact List.countP_mono_left implies
  · rw [← returns]
    refine (countP_eq_countP_iff implies).trans ?_
    constructor
    · intro same h x z live body core ends
      have flag := same h (canonical.tidy.mem_roll live.core body) ends
      obtain ⟨z', core', sealed⟩ := sealing h x live body
      cases core.symm.trans core'
      rw [live.filed] at flag
      exact (sealed.1 flag).2
    · intro same h member ends
      obtain ⟨x, live, body, eq⟩ := listed h member
      obtain ⟨z, core, sealed⟩ := sealing h x live body
      rw [eq]
      exact sealed.2 ⟨ends, same h x z live body core ends⟩

end Graph

namespace SourceFunction

/-- The statistics count every loop that control can come to, and every return whose block has not
grown. -/
theorem stats_counted (f : SourceFunction) : ∃ g₀ g report contents, f.graph = .ok g₀ ∧
    f.prunedGraph = .ok (g, report) ∧ g₀.Counted g f.body.parts contents := by
  obtain ⟨g₀, run, draws⟩ := f.graph_draws
  obtain ⟨live, reached⟩ := draws.reached
  obtain ⟨g, report, run', pruned⟩ := prunedGraph_of_draws run draws reached
  obtain ⟨C, stocked⟩ := pruned.stocked draws reached
  exact ⟨g₀, g, report, C, run, run', stocked.counted (pruned.canonical draws reached)⟩

/-- A function that returns behind an `if` whose arms are empty. -/
def undecided : SourceFunction where
  name := "f"
  returnType := ["int"]
  parameters := []
  body := .sequence [.branch ["c"] (.sequence [] none) none none, .ret ["return", ";"] none] none

/-- This return is not counted: the block of the `if` has absorbed its block. -/
theorem returningBlocks_undecided : ∃ g report s, undecided.prunedGraph = .ok (g, report) ∧
    g.stats = .ok s ∧ s.returningBlocks = 0 ∧ undecided.body.parts.countP Part.isReturn = 1 := by
  have counted : (undecided.prunedGraph >>= fun pruned => pruned.1.stats).toOption.map
      Stats.returningBlocks = some 0 := by decide +kernel
  obtain ⟨g₀, live, g, report, draws, reached, run, pruned⟩ := undecided.prunedGraph_run
  have stats := (pruned.canonical draws reached).stats_eq
  have bound : (undecided.prunedGraph >>= fun pruned => pruned.1.stats) = .ok g.counts := by
    rw [run]
    exact stats
  rw [bound] at counted
  exact ⟨g, report, g.counts, run, stats, Option.some.inj counted, by decide⟩

end SourceFunction

end Flowgraph
