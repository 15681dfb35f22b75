import Flowgraph.Proofs.Execution
import Flowgraph.Proofs.Protocol

/-!
# What the statements call

Growing the graph of a statement is a series of calls on a builder, some of them inside scopes, and
which calls these are depends on the answers to earlier ones.  A `Script` writes the series down.
It is run like the statement is grown (`Statement.run_script`), and since it is written down, one can
speak of the builders that it passes through on the way.
-/

namespace Flowgraph

open Edit Builder

/-- A series of calls on a builder. -/
inductive Script where
  | idle
  | call (call : Call)
  /-- Give up with a message. -/
  | raise (message : String)
  | both (first second : Script)
  /-- What comes next depends on the current block. -/
  | here (next : Nat → Script)
  | withBranch (body : Script)
  /-- What is behind the loop comes only if the loop was grown. -/
  | withLoop (body behind : Script)

namespace Script

/-- Make the calls of a script. -/
def run : Script → Build Unit
  | .idle => return
  | .call c => c.perform
  | .raise message => throw (.raised message)
  | .both first second => do
    first.run
    second.run
  | .here next => do (next (← currentHandle)).run
  | .withBranch body => do
    let _ ← Builder.withBranch body.run
  | .withLoop body behind => do
    if ← Builder.withLoop body.run then behind.run

/-- Running the script from `b`, the builder is `b'` at some time between two calls. -/
inductive Passes : Script → Builder → Builder → Prop where
  | start (p b) : Passes p b b
  | leaves (p b) : Passes p b (final p.run b)
  | first {p q b b'} (inside : Passes p b b') : Passes (both p q) b b'
  | second {p q b b₁ b'} (run : p.run b = .ok () b₁) (inside : Passes q b₁ b') :
      Passes (both p q) b b'
  | here {next b b'} (inside : Passes (next b.current) b b') : Passes (here next) b b'
  | inBranch {p b b₁ b'} (opened : openBranch b = .ok true b₁) (inside : Passes p b₁ b') :
      Passes (withBranch p) b b'
  | inLoop {p q b b₁ b'} (opened : openLoop b = .ok true b₁) (inside : Passes p b₁ b') :
      Passes (withLoop p q) b b'
  | behindLoop {p q b b₁ b'} (run : Builder.withLoop p.run b = .ok true b₁)
      (inside : Passes q b₁ b') : Passes (withLoop p q) b b'

/-- One script after the other. -/
def inOrder : List Script → Script
  | [] => idle
  | p :: rest => both p (inOrder rest)

/-- Add fragments to the current block, one by one. -/
def appendAll (fragments : List String) : Script :=
  inOrder (fragments.map fun fragment => call (.append fragment))

/-- Let the loop whose header is the current block lead to a new block. -/
def leaveLoop : Script :=
  here fun header => inOrder [call .advance, call (.recordLoopExit header)]

end Script

open Script in
mutual

/-- The calls of a statement. -/
def Statement.script : Statement → Script
  | .simple tokens _ => appendAll (Fragment.statement tokens)
  | .sequence body _ => scriptAll body
  | .ret tokens _ => both (appendAll (Fragment.statement tokens)) (call .sealToExit)
  | .branch condition consequent alternate _ =>
    both (appendAll (Fragment.ifHeader condition)) <| withBranch <| both (call .rewind) <|
      here fun branching =>
        inOrder [call .advance, call (.recordThen branching), script consequent, call .rewind,
          call .advance, call (.recordElse branching), scriptOption alternate]
  | .whileLoop condition body _ =>
    withLoop
      (inOrder [appendAll (Fragment.whileHeader condition), call .advance, script body])
      leaveLoop
  | .forLoop init condition update body _ =>
    both (appendAll (clauseLines init)) <|
      withLoop
        (inOrder [appendAll (Fragment.forHeader condition), call .advance,
          withBranch (inOrder [appendAll (clauseLines update), call .rewind, script body])])
        leaveLoop

/-- The calls of statements in a row. -/
def Statement.scriptAll : List Statement → Script
  | [] => idle
  | s :: rest => both (script s) (scriptAll rest)

/-- The calls of an arm, if there is one. -/
def Statement.scriptOption : Option Statement → Script
  | none => idle
  | some s => script s

end

namespace Script

theorem discard_bind {α β : Type} (x : Build α) (next : Unit → Build β) :
    ((discard x : Build Unit) >>= next) = x >>= fun _ => next () := by
  funext b
  simp only [discard, Functor.mapConst, Function.comp_def, EStateM.map, bind, EStateM.bind]
  cases x b <;> rfl

theorem run_appendAll (fragments : List String) :
    (appendAll fragments).run = Builder.appendAll fragments := by
  induction fragments with
  | nil => rfl
  | cons fragment rest ih =>
    show (discard (Builder.append fragment) >>= fun _ => (appendAll rest).run) = _
    rw [ih]
    rfl

theorem run_leaveLoop : leaveLoop.run = Builder.leaveLoop := by
  simp [leaveLoop, inOrder, run, Call.perform, discard_bind, Builder.leaveLoop]

end Script

/-- The calls of a statement are those that growing it makes. -/
theorem Statement.run_script (s : Statement) : s.script.run = s.grow := by
  induction s using Statement.induction with
  | simple tokens location =>
    unfold script grow
    exact Script.run_appendAll _
  | sequence body location each =>
    unfold script grow
    induction body with
    | nil => rfl
    | cons s rest ih =>
      unfold scriptAll growAll
      have rest := ih fun t member => each t (List.mem_cons_of_mem s member)
      have first := each s List.mem_cons_self
      simp only [Script.run, first, rest]
  | branch condition consequent alternate location thenArm elseArm =>
    have orElse : (scriptOption alternate).run = growOption alternate := by
      unfold scriptOption growOption
      cases alternate with
      | none => rfl
      | some s => exact elseArm s rfl
    unfold script grow
    simp [Script.run, Script.inOrder, Script.run_appendAll, Call.perform, Script.discard_bind,
      thenArm, orElse]
  | whileLoop condition body location ih =>
    unfold script grow
    simp [Script.run, Script.inOrder, Script.run_appendAll, Script.run_leaveLoop, Call.perform,
      Script.discard_bind, ih]
  | forLoop init condition update body location ih =>
    have nothing : Builder.appendAll (clauseLines none) = pure () := rfl
    have clause : ∀ tokens, clauseLines (some tokens) = Fragment.clause tokens := fun _ => rfl
    unfold script grow
    -- A clause that is missing makes no calls.
    cases init <;> cases update <;>
      simp [Script.run, Script.inOrder, Script.run_appendAll, Script.run_leaveLoop, Call.perform,
        Script.discard_bind, nothing, clause, ih]
  | ret tokens location =>
    unfold script grow
    simp [Script.run, Script.run_appendAll, Call.perform]

/-! ## A script makes calls only -/

/-- Whatever the edit does to a builder, calls do it. -/
def Made {α : Type} (x : Build α) : Prop := ∀ b, ∃ calls, final x b = b.after calls

namespace Made

variable {α β : Type}

theorem pure (a : α) : Made (Pure.pure a) := fun _ => ⟨[], rfl⟩

theorem throw (fault : Fault) : Made (throw fault : Build α) := fun _ => ⟨[], rfl⟩

theorem call (c : Call) : Made c.perform := fun _ => ⟨[c], rfl⟩

theorem of_discard {x : Build α} {c : Call} (perform : c.perform = discard x) : Made x := by
  intro b
  refine ⟨[c], ?_⟩
  rw [← final_discard x b, ← perform]
  rfl

theorem bind {x : Build α} {next : α → Build β} (first : Made x) (second : ∀ a, Made (next a)) :
    Made (x >>= next) := by
  intro b
  obtain ⟨calls, same⟩ := first b
  cases ran : x b with
  | error fault b₁ =>
    rw [final_of_error ran] at same
    exact ⟨calls, (final_bind_error ran).trans same⟩
  | ok a b₁ =>
    obtain ⟨more, same'⟩ := second a b₁
    rw [final_of_ok ran] at same
    refine ⟨calls ++ more, ?_⟩
    rw [final_bind_ok ran, same', after_append, same]

/-- A scope is closed whether its inside ended well or not. -/
theorem closing {body : Build Unit} (inside : Made body) : Made (closing body) := by
  intro b
  obtain ⟨calls, same⟩ := inside b
  -- The scope is closed from the builder that the inside left, a fault or not.
  obtain ⟨more, same'⟩ := of_discard (c := .close) rfl (final body b)
  refine ⟨calls ++ more, ?_⟩
  rw [after_append, ← same, ← same', final, final, final, Builder.closing]
  cases body b with
  | ok _ b₁ => rfl
  | error fault b₁ =>
    dsimp only
    cases close b₁ <;> rfl

theorem withBranch {body : Build Unit} (inside : Made body) : Made (withBranch body) := by
  apply (of_discard (c := .openBranch) rfl).bind
  intro opened
  cases opened with
  | false => exact pure false
  | true => exact inside.closing.bind fun _ => pure true

theorem withLoop {body : Build Unit} (inside : Made body) : Made (withLoop body) := by
  apply (of_discard (c := .openLoop) rfl).bind
  intro opened
  cases opened with
  | false => exact pure false
  | true => exact inside.closing

end Made

namespace Script

variable {b b' : Builder} {p : Script}

/-- What a script does, calls do. -/
theorem made_run (p : Script) : Made p.run := by
  induction p with
  | idle => exact .pure ()
  | call c => exact .call c
  | raise message => exact .throw _
  | both p q first second => exact first.bind fun _ => second
  | here next ih => exact fun b => ih b.current b
  | withBranch body ih => exact ih.withBranch.bind fun _ => .pure ()
  | withLoop body behind inside outside =>
    apply inside.withLoop.bind
    intro resumed
    cases resumed with
    | false => exact .pure ()
    | true => exact outside

/-- A builder that a script passes through was made by calls. -/
theorem Passes.calls (passes : p.Passes b b') : ∃ calls, b' = b.after calls := by
  -- Passing through what comes later starts where the first part ended.
  have behind : ∀ {α : Type} {x : Build α} {b b₁ b' : Builder} {a : α}, Made x →
      x b = .ok a b₁ → (∃ calls, b' = b₁.after calls) → ∃ calls, b' = b.after calls := by
    intro α x b b₁ b' a made run later
    obtain ⟨calls, same⟩ := made b
    obtain ⟨more, rfl⟩ := later
    refine ⟨calls ++ more, ?_⟩
    rw [after_append, ← same, final_of_ok run]
  induction passes with
  | start p b => exact ⟨[], rfl⟩
  | leaves p b => exact made_run p b
  | first inside ih => exact ih
  | second run inside ih => exact behind (made_run _) run ih
  | here inside ih => exact ih
  | inBranch opened inside ih => exact behind (.of_discard (c := .openBranch) rfl) opened ih
  | inLoop opened inside ih => exact behind (.of_discard (c := .openLoop) rfl) opened ih
  | behindLoop run inside ih => exact behind (made_run _).withLoop run ih

end Script

end Flowgraph
