import Flowgraph.Proofs.Driver
import Flowgraph.Proofs.Statements

/-!
# Nothing grows at a sealed block

Calls at a sealed block are refused, with one exception: a return that control cannot come to draws
the edge to the exit anew.  That changes nothing as long as this edge is the one that entered the
exit last.  It is while the graph of a function is grown, because the builder leaves a sealed block
only with the scope in which it was sealed, and comes back only to blocks that are open.
-/

namespace Flowgraph

open Edit Builder

/-- The calls that stay at the current block or go on at a new one. -/
def Call.Onward : Call → Prop
  | append _ | advance | recordThen _ | recordElse _ | recordLoopExit _ => True
  | openLoop | openBranch | rewind | close | sealToExit | finish => False

namespace Builder

variable {b : Builder} {x : Block} {call : Call}

/-- If the current block is sealed, its edge is the one that entered the exit last. -/
def Latest (b : Builder) : Prop :=
  ∀ x, b.graph.core? b.current = some x → x.sealed = true →
    ∃ y before, b.graph.block? Graph.exit = some y ∧
      y.predecessors.toList = before ++ [b.current]

theorem latest_of_open (known : b.graph.core? b.current = some x) (open_ : x.sealed = false) :
    b.Latest := by
  intro y known' full
  cases known.symm.trans known'
  cases open_.symm.trans full

namespace Latest

variable (latest : b.Latest) (regular : b.Regular)

include latest

include regular in
theorem stopped (known : b.graph.core? b.current = some x) (full : x.sealed = true) :
    b.Stopped where
  sealed := by
    have leads := regular.graph.closes _ x known full
    obtain ⟨y, found, rfl⟩ := Graph.core?_eq_some.1 known
    exact ⟨y, found, full, leads⟩
  last := latest x known full
  inside := by
    have inside := (regular.graph.body_iff.1 regular.current).1
    show b.current ≠ 1
    omega

/-- A change that leaves the seal and the neighbours of a block alone. -/
theorem revise {h : Nat} {f : Block → Block} (quiet : Block.Quiet f)
    (seals : ∀ x, (f x).sealed = x.sealed) :
    ({ b with graph := b.graph.revise h f } : Builder).Latest := by
  intro x known full
  have before : ∃ y, b.graph.core? b.current = some y ∧ y.sealed = true := by
    have known : (b.graph.revise h f).core? b.current = some x := known
    rw [Graph.core?_revise quiet.core] at known
    split at known
    · obtain ⟨y, core, rfl⟩ := Option.map_eq_some_iff.1 known
      exact ⟨y, core, (seals y).symm.trans full⟩
    · exact ⟨x, known, full⟩
  obtain ⟨y, core, full⟩ := before
  obtain ⟨z, before, found, order⟩ := latest y core full
  have exit := Graph.block?_revise (g := b.graph) (h := h) f Graph.exit
  rw [found] at exit
  split at exit
  · exact ⟨f z, before, exit, by rw [quiet.predecessors, order]⟩
  · exact ⟨z, before, exit, order⟩

theorem record {h : Nat} {f : Block → Block}
    (perform : call.perform b = onGraph (Graph.change h f) b) (quiet : Block.Quiet f)
    (seals : ∀ x, (f x).sealed = x.sealed) : (call.after b).Latest := by
  obtain same | same := record_after perform
  · rwa [same]
  · rw [same]
    exact latest.revise quiet seals

include regular in
/-- A call that goes on is refused by a sealed block, and leads to an open one otherwise. -/
theorem onward (onward : call.Onward) : (call.after b).Latest := by
  obtain ⟨x, known, -⟩ := regular.current_core
  cases call with
  | append text =>
    cases full : x.sealed with
    | true =>
      have after : (Call.append text).after b = b :=
        final_of_ok (discard_ok (append_of_sealed known full text))
      rwa [after]
    | false =>
      have after : (Call.append text).after b = b.appended [text] :=
        final_of_ok (discard_ok (append_run known full text))
      rw [after]
      exact latest_of_open (current_appended known [text]) full
  | advance =>
    cases full : x.sealed with
    | true =>
      have after : Call.advance.after b = b :=
        final_of_ok (discard_ok (advance_of_sealed known full))
      rwa [after]
    | false =>
      have after : Call.advance.after b = b.advanced :=
        final_of_ok (discard_ok (advance_run known full regular.fallthrough_lt))
      rw [after]
      exact latest_of_open (regular.advances known full).new rfl
  | recordThen branching =>
    exact latest.record (f := fun x => { x with thenTarget := some b.current }) rfl
      (by constructor <;> intro x <;> rfl) fun _ => rfl
  | recordElse branching =>
    exact latest.record (f := fun x => { x with elseTarget := some b.current }) rfl
      (by constructor <;> intro x <;> rfl) fun _ => rfl
  | recordLoopExit header =>
    exact latest.record (f := fun x => { x with loopExit := some b.current }) rfl
      (by constructor <;> intro x <;> rfl) fun _ => rfl
  | openLoop | openBranch | rewind | close | sealToExit | finish => cases onward

end Latest

end Builder

namespace Script

variable {b b₁ b₂ b₃ : Builder} {p q : Script} {x : Block} {start stop k : Nat} {rest : List Scope}

/-- Wherever the script comes to a sealed block, the edge of this block is the one that entered the
exit last. -/
def Orderly (p : Script) (b : Builder) : Prop := ∀ b', p.Passes b b' → b'.Latest

namespace Orderly

theorem ends (orderly : p.Orderly b) (run : p.run b = .ok () b₁) : b₁.Latest :=
  final_of_ok run ▸ orderly _ (.leaves p b)

theorem idle (latest : b.Latest) : Script.idle.Orderly b := by
  intro b' passes
  cases passes <;> exact latest

theorem call {c : Call} (latest : b.Latest) (after : (c.after b).Latest) :
    (Script.call c).Orderly b := by
  intro b' passes
  cases passes with
  | start => exact latest
  | leaves => exact after

theorem both (first : p.Orderly b) (second : ∀ b₁, p.run b = .ok () b₁ → q.Orderly b₁) :
    (Script.both p q).Orderly b := by
  intro b' passes
  cases passes with
  | start => exact first b (.start p b)
  | leaves =>
    cases ran : p.run b with
    | ok _ b₁ =>
      have behind : final (Script.both p q).run b = final q.run b₁ := final_bind_ok ran
      exact behind.symm ▸ second b₁ ran _ (.leaves q b₁)
    | error fault b₁ =>
      have stopped : final (Script.both p q).run b = b₁ := final_bind_error ran
      exact stopped.symm ▸ final_of_error ran ▸ first _ (.leaves p b)
  | first inside => exact first b' inside
  | second ran inside => exact second _ ran b' inside

/-- The same if it is known where the first part ends. -/
theorem followed (first : p.Orderly b) (run : p.run b = .ok () b₁) (second : q.Orderly b₁) :
    (Script.both p q).Orderly b := by
  refine first.both fun b₂ ran => ?_
  cases run.symm.trans ran
  exact second

theorem here {next : Nat → Script} (inside : (next b.current).Orderly b) :
    (Script.here next).Orderly b := by
  intro b' passes
  cases passes with
  | start => exact inside b (.start _ b)
  | leaves => exact inside _ (.leaves _ b)
  | here passes => exact inside b' passes

/-- A call that ends well, and what comes behind it. -/
theorem behind {c : Call} (latest : b.Latest) (run : c.perform b = .ok () b₁)
    (latest₁ : b₁.Latest) (second : q.Orderly b₁) : (Script.both (.call c) q).Orderly b := by
  obtain rfl : c.after b = b₁ := final_of_ok run
  exact (call latest latest₁).followed run second

/-- A call that goes on, and what comes behind it. -/
theorem onward {c : Call} (latest : b.Latest) (regular : b.Regular) (onward : c.Onward)
    (second : ∀ b₁, c.perform b = .ok () b₁ → b₁.Regular → b₁.Latest → q.Orderly b₁) :
    (Script.both (.call c) q).Orderly b := by
  have after := latest.onward regular onward
  refine (call latest after).both fun b₁ ran => ?_
  obtain rfl : c.after b = b₁ := final_of_ok ran
  exact second _ ran ((regular.step c).regular regular) after

theorem onwardAll {ps : List Script} (latest : b.Latest) (regular : b.Regular)
    (each : ∀ p ∈ ps, ∃ c : Call, p = .call c ∧ c.Onward) : (inOrder ps).Orderly b := by
  induction ps generalizing b with
  | nil => exact idle latest
  | cons p ps ih =>
    obtain ⟨c, rfl, goes⟩ := each p List.mem_cons_self
    exact onward latest regular goes fun b₁ _ regular₁ latest₁ =>
      ih latest₁ regular₁ fun p member => each p (List.mem_cons_of_mem _ member)

theorem appendAll (latest : b.Latest) (regular : b.Regular) (fragments : List String) :
    (Script.appendAll fragments).Orderly b := by
  refine onwardAll latest regular fun p member => ?_
  obtain ⟨fragment, -, rfl⟩ := List.mem_map.1 member
  exact ⟨_, rfl, trivial⟩

theorem leaveLoop (latest : b.Latest) (regular : b.Regular) : Script.leaveLoop.Orderly b := by
  refine here (onwardAll latest regular fun p member => ?_)
  simp only [List.mem_cons, List.not_mem_nil, or_false] at member
  obtain rfl | rfl := member
  · exact ⟨_, rfl, trivial⟩
  · exact ⟨_, rfl, trivial⟩

end Orderly

/-! ## Statements -/

/-- The script is orderly wherever a statement may be grown. -/
def Steady (p : Script) : Prop := ∀ b : Builder, b.Regular → b.Ready → b.Latest → p.Orderly b

theorem steady_idle : Steady idle := fun _ _ _ latest => .idle latest

theorem Steady.both (first : p.Steady) (grows : Proceeds p.run) (second : q.Steady) :
    (both p q).Steady := by
  intro b regular ready latest
  obtain ⟨b₁, run, grown⟩ := grows b regular ready
  have orderly := first b regular ready latest
  have latest₁ : b₁.Latest := orderly.ends run
  exact orderly.followed run (second b₁ grown.regular grown.ready latest₁)

theorem steady_appendAll (fragments : List String) : (appendAll fragments).Steady :=
  fun _ regular _ latest => .appendAll latest regular fragments

/-- A return seals a block that is open, and its edge enters the exit last. -/
theorem steady_sealToExit : (call .sealToExit).Steady := by
  intro b regular ready latest
  refine .call latest ?_
  obtain ⟨x, known, full | ⟨open_, leads⟩⟩ := ready
  · have after : Call.sealToExit.after b = b :=
      final_of_ok (sealToExit_of_stopped (latest.stopped regular known full))
    rwa [after]
  · have inside := (regular.graph.body_iff.1 regular.current).1
    obtain ⟨y, found⟩ :=
      Option.isSome_iff_exists.1 (Graph.block?_isSome_iff.2 regular.graph.exit_lt)
    have other : b.current ≠ Graph.exit := by
      show b.current ≠ 1
      omega
    obtain ⟨y', found', order⟩ :=
      Graph.returned_last regular.graph.mirrored known leads other found
    have after : Call.sealToExit.after b =
        { b with graph := b.graph.returned b.current b.fallthrough } :=
      final_of_ok (sealToExit_run known leads regular.fallthrough_lt regular.graph.exit_lt)
    rw [after]
    exact fun _ _ _ => ⟨y', _, found', order⟩

/-- A scope that is closed goes on at an open block, so it matters only what is inside. -/
theorem Steady.withBranch (fills : Fills p.run)
    (inside : ∀ (b : Builder) (start stop k : Nat) (rest : List Scope),
      b.Inside start stop k rest → b.current = stop →
      (∃ x, b.graph.core? start = some x ∧ x.sealed = false ∧ x.successors = .singleton stop) →
      p.Orderly b) : (Script.withBranch p).Steady := by
  intro b regular ready latest b' passes
  obtain ⟨x, known, full | ⟨open_, leads⟩⟩ := id ready
  -- Nothing is opened at a sealed block, and no other block is passed.
  · cases passes with
    | start => exact latest
    | leaves =>
      have stays := withBranch_of_sealed known full p.run
      have after : final (Script.withBranch p).run b = b := final_of_ok (bind_ok stays)
      rwa [after]
    | inBranch opened => cases (openBranch_of_sealed known full).symm.trans opened
  -- The scope ends at a block that is new and open; in between it is a matter of what is inside.
  · cases passes with
    | start => exact latest
    | leaves =>
      obtain ⟨b₁, ran, -, -, -, ⟨y, known₁, open₁, -⟩, -⟩ :=
        fills.withBranch regular known open_ leads
      have after : final (Script.withBranch p).run b = b₁ := final_of_ok (bind_ok ran)
      rw [after]
      exact latest_of_open known₁ open₁
    | @inBranch _ _ b₁ _ opened passes =>
      obtain ⟨_, opened', within, current, branching, -⟩ :=
        regular.opens_branch known open_ leads
      cases opened.symm.trans opened'
      exact inside b₁ _ _ _ _ within current branching b' passes

/-- An arm is grown at a block of its own behind the block that branches. -/
theorem Steady.arm (steady : p.Steady) (grows : Proceeds p.run)
    (inside : b.Inside start stop k rest) (record : Nat → Call)
    (onward : (record start).Onward)
    (notes : ∀ b : Builder, b.Regular → start < b.graph.arena.size →
      ∃ b', (record start).perform b = .ok () b' ∧ Notes b b' start) :
    ∃ b₁ b', rewind b = .ok () b₁ ∧ b₁.Latest ∧ b₁.current = start ∧
      b'.Inside start stop k rest ∧ b'.Latest ∧ ∀ q : Script, q.Orderly b' →
        (Script.both (.call .advance)
          (.both (.call (record start)) (.both p q))).Orderly b₁ := by
  obtain ⟨b₁, b₂, b₃, b', back, inside₁, current₁, run₂, run₃, regular₃, ready₃, run', inside', -⟩ :=
    inside.arm grows (fun h => (record h).perform) notes
  obtain ⟨x, known, open_⟩ := inside₁.start
  have latest₁ : b₁.Latest := latest_of_open (current₁.symm ▸ known) open_
  have run₂ : Call.advance.perform b₁ = .ok () b₂ := discard_ok run₂
  have after₂ : Call.advance.after b₁ = b₂ := final_of_ok run₂
  have after₃ : (record start).after b₂ = b₃ := final_of_ok run₃
  have latest₂ : b₂.Latest := after₂ ▸ latest₁.onward inside₁.regular trivial
  have regular₂ : b₂.Regular := after₂ ▸ (inside₁.regular.step .advance).regular inside₁.regular
  have latest₃ : b₃.Latest := after₃ ▸ latest₂.onward regular₂ onward
  have orderly := steady b₃ regular₃ ready₃ latest₃
  have latest' : b'.Latest := orderly.ends run'
  exact ⟨b₁, b', back, latest₁, current₁, inside', latest', fun q second =>
    .behind latest₁ run₂ latest₂ (.behind latest₂ run₃ latest₃ (orderly.followed run' second))⟩

/-- Both arms of an `if`. -/
theorem Steady.arms (first : p.Steady) (firstGrows : Proceeds p.run) (second : q.Steady)
    (secondGrows : Proceeds q.run) :
    (Script.withBranch <| .both (.call .rewind) <| .here fun branching =>
      inOrder [.call .advance, .call (.recordThen branching), p, .call .rewind, .call .advance,
        .call (.recordElse branching), q]).Steady := by
  refine Steady.withBranch ?_ fun b start stop k rest inside current _ => ?_
  · have fills := fills_arms firstGrows secondGrows
    simpa [run, inOrder, Call.perform, discard_bind] using fills
  · obtain ⟨x, known, open_, -⟩ := inside.stop
    obtain ⟨b₁, b₂, back, latest₁, current₁, inside₂, latest₂, arm⟩ :=
      first.arm firstGrows inside .recordThen trivial fun b regular known =>
        ⟨_, recordThen_run known, regular.notes (by constructor <;> intro x <;> rfl) fun _ => rfl⟩
    obtain ⟨b₃, b₄, back', latest₃, -, -, latest₄, arm'⟩ :=
      second.arm secondGrows inside₂ .recordElse trivial fun b regular known =>
        ⟨_, recordElse_run known, regular.notes (by constructor <;> intro x <;> rfl) fun _ => rfl⟩
    refine .behind (latest_of_open (current.symm ▸ known) open_) back latest₁ (.here ?_)
    rw [current₁]
    exact arm _ (.behind latest₂ back' latest₃ (arm' _ (.idle latest₄)))

theorem fills_script (grows : Proceeds p.run) (fragments : List String) :
    Fills (inOrder [Script.appendAll fragments, .call .rewind, p]).run := by
  have fills := fills_update fragments grows
  simpa [run, inOrder, run_appendAll, Call.perform] using fills

/-- The update of a `for`, and the body in front of it. -/
theorem Steady.update (steady : p.Steady) (grows : Proceeds p.run) (fragments : List String) :
    (Script.withBranch (inOrder [Script.appendAll fragments, .call .rewind, p])).Steady := by
  refine Steady.withBranch (fills_script grows fragments)
    fun b start stop k rest inside current leads => ?_
  obtain ⟨x, known, open_, -⟩ := inside.stop
  obtain ⟨b₁, b₂, wrote, back, inside₂, ready₂, current₂, -⟩ :=
    inside.write current leads fragments
  obtain ⟨y, known₂, open₂⟩ := inside₂.start
  have latest₂ : b₂.Latest := latest_of_open (current₂.symm ▸ known₂) open₂
  have writes := Orderly.appendAll (latest_of_open (current.symm ▸ known) open_)
    inside.regular fragments
  have wrote : (Script.appendAll fragments).run b = .ok () b₁ :=
    (congrFun (run_appendAll fragments) b).trans wrote
  have latest₁ : b₁.Latest := writes.ends wrote
  obtain ⟨b₃, run₃, grown⟩ := grows b₂ inside₂.regular ready₂
  have orderly := steady b₂ inside₂.regular ready₂ latest₂
  have latest₃ : b₃.Latest := orderly.ends run₃
  exact writes.followed wrote
    (.behind latest₁ back latest₂ (orderly.followed run₃ (.idle latest₃)))

/-- A loop is grown behind its header, and is left at the header if it was grown. -/
theorem Steady.loop (steady : p.Steady) (grows : Proceeds p.run) (header : List String) :
    (Script.withLoop (inOrder [Script.appendAll header, .call .advance, p])
      Script.leaveLoop).Steady := by
  intro b regular ready latest b' passes
  have script : (inOrder [Script.appendAll header, .call .advance, p]).run = (do
      Builder.appendAll header
      let _ ← advance
      p.run) := by
    simp [run, inOrder, run_appendAll, Call.perform, discard_bind]
  obtain ⟨x, known, full | ⟨open_, -⟩⟩ := id ready
  · have stays := withLoop_of_sealed known full
    cases passes with
    | start => exact latest
    | leaves =>
      have after : final (Script.withLoop (inOrder [Script.appendAll header, .call .advance, p])
          Script.leaveLoop).run b = b := final_bind_ok (stays _)
      rwa [after]
    | inLoop opened => cases (openLoop_of_sealed known full).symm.trans opened
    | behindLoop run => cases (stays _).symm.trans run
  · obtain ⟨b₅, ran, regular₅, -, -, ⟨y, known₅, open₅⟩, -⟩ :=
      grows.withLoop regular known open_ header
    rw [← script] at ran
    have leaving := Orderly.leaveLoop (latest_of_open known₅ open₅) regular₅
    cases passes with
    | start => exact latest
    | leaves =>
      have after : final (Script.withLoop (inOrder [Script.appendAll header, .call .advance, p])
          Script.leaveLoop).run b = final Script.leaveLoop.run b₅ := final_bind_ok ran
      rw [after]
      exact leaving _ (.leaves _ b₅)
    | @inLoop _ _ _ b₁ _ opened passes =>
      obtain ⟨_, b₂, b₃, opened', regular₁, ⟨z, known₁, open₁⟩, wrote, run₃, regular₃, ready₃, -⟩ :=
        regular.opens_loop known open_ header
      cases opened.symm.trans opened'
      have writes := Orderly.appendAll (latest_of_open known₁ open₁) regular₁ header
      have wrote : (Script.appendAll header).run b₁ = .ok () b₂ :=
        (congrFun (run_appendAll header) b₁).trans wrote
      have latest₂ : b₂.Latest := writes.ends wrote
      have regular₂ : b₂.Regular := by
        obtain ⟨calls, same⟩ := made_run (Script.appendAll header) b₁
        rw [final_of_ok wrote] at same
        exact same ▸ (regular₁.after calls).1
      have run₃ : Call.advance.perform b₂ = .ok () b₃ := discard_ok run₃
      have after₃ : Call.advance.after b₂ = b₃ := final_of_ok run₃
      have latest₃ : b₃.Latest := after₃ ▸ latest₂.onward regular₂ trivial
      obtain ⟨b₄, run₄, grown⟩ := grows b₃ regular₃ ready₃
      have orderly := steady b₃ regular₃ ready₃ latest₃
      have latest₄ : b₄.Latest := orderly.ends run₄
      exact writes.followed wrote
        (.behind latest₂ run₃ latest₃ (orderly.followed run₄ (.idle latest₄))) b' passes
    | behindLoop run passes =>
      cases ran.symm.trans run
      exact leaving _ passes

end Script

open Script in
/-- Growing a statement comes to a sealed block only where its edge entered the exit last. -/
theorem Statement.steady_script (s : Statement) : s.script.Steady := by
  -- That what comes first goes on at a block that is ready is known for all statements.
  have grows : ∀ t : Statement, Proceeds t.script.run := fun t => t.run_script ▸ t.proceeds_grow
  induction s using Statement.induction with
  | simple tokens location =>
    unfold script
    exact steady_appendAll _
  | sequence body location each =>
    unfold script
    induction body with
    | nil => exact steady_idle
    | cons s rest ih =>
      unfold scriptAll
      exact (each s List.mem_cons_self).both (grows s)
        (ih fun t member => each t (List.mem_cons_of_mem s member))
  | branch condition consequent alternate location thenArm elseArm =>
    have appends := Proceeds.appendAll (Fragment.ifHeader condition)
    rw [← run_appendAll] at appends
    unfold script
    refine (steady_appendAll _).both appends (thenArm.arms (grows _) ?_ ?_)
    · unfold scriptOption
      cases alternate with
      | none => exact steady_idle
      | some s => exact elseArm s rfl
    · unfold scriptOption
      cases alternate with
      | none => exact .nothing
      | some s => exact grows s
  | whileLoop condition body location ih =>
    unfold script
    exact ih.loop (grows body) _
  | forLoop init condition update body location ih =>
    have updates : Proceeds (withBranch (inOrder [appendAll (clauseLines update), call .rewind,
        body.script])).run :=
      .withBranch (fills_script (grows body) (clauseLines update))
    have appends := Proceeds.appendAll (clauseLines init)
    rw [← run_appendAll] at appends
    unfold script
    exact (steady_appendAll _).both appends ((ih.update (grows body) _).loop updates _)
  | ret tokens location =>
    have appends := Proceeds.appendAll (Fragment.statement tokens)
    rw [← run_appendAll] at appends
    unfold script
    exact (steady_appendAll _).both appends steady_sealToExit

namespace SourceFunction

variable {f : SourceFunction} {b : Builder}

/-- While the graph of a function is grown, the edge of a sealed current block is the one that
entered the exit last. -/
theorem Passes.latest (passes : f.Passes b) : b.Latest := by
  have start := regular_ofSignature f.name (Fragment.ofTokens f.returnType)
    (Fragment.ofTokens f.parameters)
  have known : (ofSignature f.name (Fragment.ofTokens f.returnType)
      (Fragment.ofTokens f.parameters)).graph.core? 2 = some _ := rfl
  have ready : (ofSignature f.name (Fragment.ofTokens f.returnType)
      (Fragment.ofTokens f.parameters)).Ready := ⟨_, known, .inr ⟨rfl, rfl⟩⟩
  exact f.body.steady_script _ start ready (latest_of_open known rfl) b passes

/-- Growing a statement at a sealed block ends well and changes nothing, whatever the statement. -/
theorem grow_sealed (f : SourceFunction) {b : Builder} (passes : f.Passes b)
    (full : ∃ x, b.graph.block? b.current = some x ∧ x.sealed = true) (s : Statement) :
    s.grow b = .ok () b := by
  obtain ⟨x, found, sealed⟩ := full
  have known : b.graph.core? b.current = some x.core := Graph.core?_eq_some.2 ⟨x, found, rfl⟩
  exact s.lays_grow.stopped b (passes.latest.stopped passes.regular known sealed)

/-- A loop with a return in it, behind a body that returns in an arm and then at its end. -/
theorem grow_sealed_loop :
    let body : Statement := .sequence
      [.branch ["a"] (.ret ["return", ";"] none) none none, .ret ["return", ";"] none] none
    let b := final body.script.run (ofSignature "f" [] [])
    (Statement.whileLoop ["c"] (.ret ["return", ";"] none) none).grow b = .ok () b :=
  grow_sealed { name := "f", returnType := [], parameters := [], body := _ }
    (Script.Passes.leaves _ _) ((Option.any_eq_true _ _).1 (by decide +kernel)) _

end SourceFunction

end Flowgraph
