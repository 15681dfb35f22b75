import Flowgraph.Proofs.Canonical

/-!
# Pruned graphs are well formed and minimal

What a reader of a pruned graph can rely on, said of the blocks themselves: the edges are kept at
both ends and never lead to removed blocks, the targets agree with the edges, the numbers follow the
order of creation, and there is neither an empty block nor a chain left.
-/

namespace Flowgraph

open Relation

namespace Graph

/-- Block `h` is live, and it is `x`. -/
def Live (g : Graph) (h : Nat) (x : Block) : Prop := g.block? h = some x ∧ x.isAlive = true

/-- The live blocks form a graph, each of them ends in one way, and those that are printed are
numbered. -/
structure WellFormed (g : Graph) : Prop where
  mirrored : ∀ u x v y, g.Live u x → g.Live v y → (v ∈ x.successors ↔ u ∈ y.predecessors)
  named : ∀ u x v, g.Live u x → v ∈ x.predecessors ∨ v ∈ x.successors ∨ x.thenTarget = some v ∨
    x.elseTarget = some v ∨ x.loopExit = some v → ∃ y, g.Live v y
  entry : ∃ x, g.Live entry x ∧ x.predecessors = ∅ ∧ x.successors.size = 1
  exit : ∃ x, g.Live exit x ∧ x.successors = ∅
  targets : ∀ u x, g.Live u x → (x.thenTarget.isSome ↔ x.elseTarget.isSome) ∧
    (x.thenTarget.isSome → x.loopExit = none)
  branches : ∀ u x, g.Live u x → x.kind = .body → ∀ thenArm, x.thenTarget = some thenArm →
    ∃ elseArm, x.elseTarget = some elseArm ∧ ∀ v, v ∈ x.successors ↔ v = thenArm ∨ v = elseArm
  loops : ∀ u x, g.Live u x → x.kind = .body → ∀ after, x.loopExit = some after →
    after ∈ x.successors ∧ x.successors.size = 2
  goes : ∀ u x, g.Live u x → x.kind = .body → x.thenTarget = none → x.loopExit = none →
    x.successors.size = 1
  displayed : ∀ h, (g.numbering.get? h).isSome ↔ ∃ x, g.Live h x ∧ x.kind = .body
  onto : ∀ i, (∃ h, g.numbering.get? h = some i) ↔ i < g.numbering.size
  ordered : ∀ h x n i h' x' n' i', g.Live h x → x.id = some n → g.numbering.get? h = some i →
    g.Live h' x' → x'.id = some n' → g.numbering.get? h' = some i' → (i < i' ↔ n < n')

/-- There is nothing left to prune. -/
structure Minimal (g : Graph) : Prop where
  filled : ∀ h x, g.Live h x → x.kind = .body → x.lines ≠ []
  between : ∀ h x, g.Live h x → x.kind = .body →
    ReflTransGen (fun u v => ∃ x, g.Live u x ∧ v ∈ x.successors) entry h ∧
      ReflTransGen (fun u v => ∃ x, g.Live u x ∧ v ∈ x.successors) h exit
  merged : ∀ h x next y, g.Live h x → x.kind = .body → g.Live next y → y.kind = .body →
    next ≠ h → x.successors = .singleton next → y.predecessors ≠ .singleton h

variable {g : Graph} {h i j m n u v : Nat} {x y : Block}

namespace WellFormed

variable (wellFormed : g.WellFormed) (live : g.Live h x)

include wellFormed live

theorem live_successor (member : v ∈ x.successors.toList) : ∃ y, g.Live v y :=
  wellFormed.named h x v live (.inr (.inl member))

theorem live_predecessor (member : v ∈ x.predecessors.toList) : ∃ y, g.Live v y :=
  wellFormed.named h x v live (.inl member)

theorem live_target (target : x.thenTarget = some v ∨ x.elseTarget = some v ∨ x.loopExit = some v) :
    ∃ y, g.Live v y :=
  wellFormed.named h x v live (.inr (.inr target))

end WellFormed

theorem Live.core (live : g.Live h x) : g.live? h = some x.core :=
  live?_eq_some.2 ⟨core?_eq_some.2 ⟨x, live.1, rfl⟩, live.2⟩

theorem live_of_isSome (alive : (g.live? h).isSome) : ∃ x, g.Live h x := by
  obtain ⟨x, known⟩ := Option.isSome_iff_exists.1 alive
  obtain ⟨core, alive⟩ := live?_eq_some.1 known
  obtain ⟨b, found, rfl⟩ := core?_eq_some.1 core
  exact ⟨b, found, alive⟩

theorem Live.entered (live : g.Live v y) : g.Entered u v ↔ u ∈ y.predecessors :=
  entered_of_block live.1

theorem Live.flow (live : g.Live u x) : g.Flow u v ↔ v ∈ x.successors := by
  simp [Flow, live.core, Block.core]

theorem flow_iff_live : g.Flow u v ↔ ∃ x, g.Live u x ∧ v ∈ x.successors := by
  constructor
  · intro flow
    obtain ⟨x, known, -⟩ := id flow
    obtain ⟨b, live⟩ := live_of_isSome (g := g) (h := u) (by simp [known])
    exact ⟨b, live, live.flow.1 flow⟩
  · rintro ⟨x, live, member⟩
    exact live.flow.2 member

end Graph

/-- Two lists with the same order. -/
theorem lt_iff_of_sublist {l t : List Nat} {i j m n a b : Nat} (sub : l.Sublist t)
    (nodup : t.Nodup) (hi : l[i]? = some a) (hj : l[j]? = some b) (hm : t[m]? = some a)
    (hn : t[n]? = some b) : i < j ↔ m < n := by
  have order : t.Pairwise fun a b => ∀ m n : Nat, t[m]? = some a → t[n]? = some b → m < n := by
    refine List.pairwise_iff_getElem.2 fun i j hi hj less m n hm hn => ?_
    have first := (List.getElem?_inj hi nodup).1 ((List.getElem?_eq_getElem hi).trans hm.symm)
    have second := (List.getElem?_inj hj nodup).1 ((List.getElem?_eq_getElem hj).trans hn.symm)
    omega
  have climbs : ∀ {i j a b m n : Nat}, l[i]? = some a → l[j]? = some b → t[m]? = some a →
      t[n]? = some b → i < j → m < n := by
    intro i j a b m n hi hj hm hn less
    obtain ⟨low, rfl⟩ := List.getElem?_eq_some_iff.1 hi
    obtain ⟨high, rfl⟩ := List.getElem?_eq_some_iff.1 hj
    exact List.pairwise_iff_getElem.1 (order.sublist sub) i j low high less m n hm hn
  refine ⟨climbs hi hj hm hn, fun less => ?_⟩
  obtain before | rfl | behind := Nat.lt_trichotomy i j
  · exact before
  · obtain rfl := Option.some.inj (hi.symm.trans hj)
    have lt := (List.getElem?_eq_some_iff.1 hm).1
    have := (List.getElem?_inj lt nodup).1 (hm.trans hn.symm)
    omega
  · exact absurd (climbs hj hi hn hm behind) (by omega)

namespace Graph

variable {g : Graph} {h i j m n u v : Nat} {x y : Block} {e : Ending Nat}

theorem Tidy.kind_eq (tidy : g.Tidy) (live : g.Live h x) : x.kind = BlockKind.ofHandle h :=
  tidy.kinds h x.core (live?_eq_some.1 live.core).1

/-- A number tells where in the table a block stands. -/
theorem Tidy.named_of_live (tidy : g.Tidy) (live : g.Live h x) (id : x.id = some i) :
    g.table[i]? = some h :=
  tidy.numbers h x.core i (live?_eq_some.1 live.core).1 id

/-- Every live block but the exit ends in one way. -/
theorem Tidy.ends_live (tidy : g.Tidy) (live : g.Live h x) :
    (∃ e, x.Ends e) ∨ x.kind ≠ .body ∧ x.core = { kind := .exit } := by
  have kind := tidy.kind_eq live
  match h, kind with
  | 0, _ =>
    obtain ⟨next, known⟩ := tidy.entry
    have eq := Option.some.inj (live.core.symm.trans known)
    have ends : x.core.Ends (.goes next) := by
      rw [eq]
      exact .goes rfl rfl rfl rfl
    exact .inl ⟨_, ends.congr rfl rfl rfl rfl⟩
  | 1, kind =>
    refine .inr ⟨fun body => ?_, Option.some.inj (live.core.symm.trans tidy.exit)⟩
    cases kind.symm.trans body
  | h + 2, kind =>
    obtain ⟨e, ends, -⟩ := tidy.ends (h + 2) x.core live.core kind
    exact .inl ⟨e, ends.congr rfl rfl rfl rfl⟩

theorem Tidy.ends_body (tidy : g.Tidy) (live : g.Live h x) (body : x.kind = .body) :
    ∃ e, x.Ends e :=
  (tidy.ends_live live).resolve_right fun ⟨other, _⟩ => other body

theorem mem_successors_of_target (ends : x.Ends e) (target : x.thenTarget = some v ∨
    x.elseTarget = some v ∨ x.loopExit = some v) : v ∈ x.successors := by
  cases ends with
  | goes successors noThen noElse noExit => simp [noThen, noElse, noExit] at target
  | branches successors isThen isElse noExit =>
    rw [successors]
    simp only [isThen, isElse, noExit, Option.some.injEq, reduceCtorEq, or_false] at target
    exact target.imp Eq.symm Eq.symm
  | loops apart successors noThen noElse isExit =>
    rw [successors]
    simp only [noThen, noElse, isExit, Option.some.injEq, reduceCtorEq, false_or] at target
    exact .inr target.symm

/-- The number that is shown is the place on the roll. -/
theorem Canonical.shown_iff (canonical : g.Canonical) :
    g.numbering.get? h = some i ↔ g.roll[i]? = some h := by
  rw [canonical.numbering]
  exact Numbering.get?_ofRoll (canonical.tidy.nodup.filter _)

/-- The end of a loop is one of two successors. -/
theorem size_successors_of_loopExit (ends : x.Ends e) (target : x.loopExit = some v) :
    x.successors.size = 2 := by
  cases ends with
  | goes _ _ _ noExit => cases noExit.symm.trans target
  | branches _ _ _ noExit => cases noExit.symm.trans target
  | @loops inner after apart successors =>
    have two : x.successors.toList.Perm [inner, after] := by
      refine (List.perm_ext_iff_of_nodup x.successors.nodup (by simpa using apart)).2 fun v => ?_
      simpa [OrderedSet.mem_iff] using successors v
    exact two.length_eq

/-- What a live block names is live. -/
theorem Tidy.named (tidy : g.Tidy) (live : g.Live u x) (names : v ∈ x.predecessors ∨
    v ∈ x.successors ∨ x.thenTarget = some v ∨ x.elseTarget = some v ∨ x.loopExit = some v) :
    ∃ y, g.Live v y := by
  have leads : v ∈ x.successors → ∃ y, g.Live v y := fun member =>
    live_of_isSome (tidy.flow u v (live.flow.2 member)).2
  obtain member | member | target := names
  · obtain ⟨y, known, -⟩ := tidy.entered v u (by simp [live.core]) (live.entered.2 member)
    exact live_of_isSome (by simp [known])
  · exact leads member
  · obtain ⟨e, ends⟩ | ⟨-, eq⟩ := tidy.ends_live live
    · exact leads (mem_successors_of_target ends target)
    · -- The exit has no targets.
      have noThen : x.thenTarget = none := congrArg Block.thenTarget eq
      have noElse : x.elseTarget = none := congrArg Block.elseTarget eq
      have noExit : x.loopExit = none := congrArg Block.loopExit eq
      simp [noThen, noElse, noExit] at target

/-- The blocks that have a number to be shown are the live ones inside the function. -/
theorem Canonical.displayed (canonical : g.Canonical) (h : Nat) :
    (g.numbering.get? h).isSome ↔ ∃ x, g.Live h x ∧ x.kind = .body := by
  rw [Option.isSome_iff_exists]
  constructor
  · rintro ⟨i, shown⟩
    obtain ⟨member, alive⟩ := List.mem_filter.1 (List.mem_of_getElem? (canonical.shown_iff.1 shown))
    obtain ⟨x, live⟩ := live_of_isSome alive
    have high := (canonical.tidy.inside h member).1
    exact ⟨x, live, (canonical.tidy.kind_eq live).trans (BlockKind.ofHandle_eq_body.2 high)⟩
  · rintro ⟨x, live, body⟩
    obtain ⟨i, named⟩ := List.mem_iff_getElem?.1 (canonical.tidy.mem_roll live.core body)
    exact ⟨i, canonical.shown_iff.2 named⟩

theorem Canonical.wellFormed (canonical : g.Canonical) : g.WellFormed where
  mirrored u x v y live live' := by
    rw [← live.flow, ← live'.entered]
    exact ⟨fun flow => (canonical.tidy.flow u v flow).1,
      canonical.tidy.entered u v (by simp [live'.core])⟩
  named u x v live := canonical.tidy.named live
  entry := by
    obtain ⟨next, known⟩ := canonical.tidy.entry
    obtain ⟨x, live⟩ := live_of_isSome (g := g) (h := Graph.entry) (by simp [known])
    have leads := congrArg Block.successors (Option.some.inj (live.core.symm.trans known))
    refine ⟨x, live, OrderedSet.ext (List.eq_nil_iff_forall_not_mem.2 fun u member => ?_), ?_⟩
    · exact canonical.tidy.source u (live.entered.2 member)
    · exact congrArg OrderedSet.size leads
  exit := by
    have known := canonical.tidy.exit
    obtain ⟨x, live⟩ := live_of_isSome (g := g) (h := Graph.exit) (by simp [known])
    exact ⟨x, live, congrArg Block.successors (Option.some.inj (live.core.symm.trans known))⟩
  targets u x live := by
    obtain ⟨e, ends⟩ | ⟨-, eq⟩ := canonical.tidy.ends_live live
    · cases ends with
      | goes _ noThen noElse => simp [noThen, noElse]
      | branches _ isThen isElse noExit => simp [isThen, isElse, noExit]
      | loops _ _ noThen noElse => simp [noThen, noElse]
    · have noThen : x.thenTarget = none := congrArg Block.thenTarget eq
      have noElse : x.elseTarget = none := congrArg Block.elseTarget eq
      simp [noThen, noElse]
  branches u x live body thenArm target := by
    obtain ⟨e, ends⟩ := canonical.tidy.ends_body live body
    cases ends with
    | goes _ noThen => cases noThen.symm.trans target
    | branches successors isThen isElse =>
      cases isThen.symm.trans target
      exact ⟨_, isElse, successors⟩
    | loops _ _ noThen => cases noThen.symm.trans target
  loops u x live body after target := by
    obtain ⟨e, ends⟩ := canonical.tidy.ends_body live body
    exact ⟨mem_successors_of_target ends (.inr (.inr target)), size_successors_of_loopExit ends target⟩
  goes u x live body noThen noExit := by
    obtain ⟨e, ends⟩ := canonical.tidy.ends_body live body
    cases ends with
    | goes successors =>
      rw [successors]
      rfl
    | branches _ isThen => cases noThen.symm.trans isThen
    | loops _ _ _ _ isExit => cases noExit.symm.trans isExit
  displayed := canonical.displayed
  onto i := by
    simp only [canonical.shown_iff]
    rw [canonical.numbering, Numbering.size_ofRoll, ← Option.isSome_iff_exists, isSome_getElem?]
  ordered h x n i h' x' n' i' live id shown live' id' shown' :=
    -- The roll is a part of the table, so its places are in the order of the numbers.
    lt_iff_of_sublist List.filter_sublist canonical.tidy.nodup (canonical.shown_iff.1 shown)
      (canonical.shown_iff.1 shown') (canonical.tidy.named_of_live live id)
      (canonical.tidy.named_of_live live' id')

theorem Canonical.minimal (canonical : g.Canonical) : g.Minimal where
  filled h x live body := canonical.filled h x.core live.core body
  between h x live _ := by
    have same : (fun u v => ∃ x, g.Live u x ∧ v ∈ x.successors) = g.Flow :=
      funext fun u => funext fun v => propext flow_iff_live.symm
    rw [same]
    exact canonical.passable h (by simp [live.core])
  merged h x next y live body live' body' other leads alone := by
    have inner : next ≠ Graph.exit := by
      rintro rfl
      have kind := congrArg Block.kind (Option.some.inj (live'.core.symm.trans canonical.tidy.exit))
      cases kind.symm.trans body'
    refine canonical.settled h next ⟨⟨x.core, live.core, body, congrArg OrderedSet.toList leads⟩,
      inner, other, fun u flow => ?_⟩
    have entered := live'.entered.1 (canonical.tidy.flow u next flow).1
    rwa [alone, OrderedSet.mem_singleton] at entered

end Graph

/-- The pruned graph of a function is well formed. -/
theorem SourceFunction.prunedGraph_wellFormed (f : SourceFunction) :
    ∃ g report, f.prunedGraph = .ok (g, report) ∧ g.WellFormed := by
  obtain ⟨g₀, live, g, report, draws, reached, run, pruned⟩ := f.prunedGraph_run
  exact ⟨g, report, run, (pruned.canonical draws reached).wellFormed⟩

/-- The pruned graph of a function is minimal. -/
theorem SourceFunction.prunedGraph_minimal (f : SourceFunction) :
    ∃ g report, f.prunedGraph = .ok (g, report) ∧ g.Minimal := by
  obtain ⟨g₀, live, g, report, draws, reached, run, pruned⟩ := f.prunedGraph_run
  exact ⟨g, report, run, (pruned.canonical draws reached).minimal⟩

end Flowgraph
