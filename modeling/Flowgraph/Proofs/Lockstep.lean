import Flowgraph.Generate
import Flowgraph.Proofs.Calls
import Mathlib.Data.List.Forall2

/-!
# Two builders in step

No part of a builder looks at the fragments that it stores.  So two builders that are given the same
calls, but other fragments, go through the same states: `Echoes` compares everything but the
fragments, of which it says only how those of one block are related to those of the other.  The
passes that prune a graph ask whether a block holds fragments at all, so they stay in step as well.
-/

namespace Flowgraph

/-! ## Edits in step -/

namespace Edit

variable {σ τ α β γ : Type} {R : σ → σ → Prop} {T : τ → τ → Prop} {P : α → α → Prop}
  {Q : β → β → Prop}

/-- If the first edit ends well, so does the second one from a related state, with a related
result. -/
def Lockstep (R : σ → σ → Prop) (P : α → α → Prop) (x y : Edit σ α) : Prop :=
  ∀ s s' a t, R s s' → x s = .ok a t → ∃ a' t', y s' = .ok a' t' ∧ P a a' ∧ R t t'

namespace Lockstep

theorem pure {a a' : α} (same : P a a') : Lockstep R P (pure a) (pure a') := by
  intro s s' b t related run
  cases run
  exact ⟨a', s', rfl, same, related⟩

theorem bind {x y : Edit σ α} {f k : α → Edit σ β} (first : Lockstep R P x y)
    (second : ∀ a a', P a a' → Lockstep R Q (f a) (k a')) : Lockstep R Q (x >>= f) (y >>= k) := by
  intro s s' b u related run
  cases ran : x s with
  | error fault t =>
    -- A fault in the first edit is one of the whole.
    rw [bind_error ran] at run
    cases run
  | ok a t =>
    rw [bind_ok ran] at run
    obtain ⟨a', t', ran', same, related'⟩ := first s s' a t related ran
    obtain ⟨b', u', run', same', related''⟩ := second a a' same t t' b u related' run
    exact ⟨b', u', (bind_ok ran').trans run', same', related''⟩

/-- The same for two edits whose results are equal. -/
theorem bind_eq {x y : Edit σ α} {f k : α → Edit σ β} (first : Lockstep R Eq x y)
    (second : ∀ a, Lockstep R Q (f a) (k a)) : Lockstep R Q (x >>= f) (y >>= k) := by
  refine first.bind fun a a' same => ?_
  subst same
  exact second a

theorem throw {y : Edit σ α} (fault : Fault) : Lockstep R P (throw fault) y := by
  intro s s' a t _ run
  cases run

theorem get : Lockstep R R get get := by
  intro s s' a t related run
  cases run
  exact ⟨s', s', rfl, related, related⟩

theorem modify {f k : σ → σ} (keeps : ∀ s s', R s s' → R (f s) (k s')) :
    Lockstep R Eq (modify f) (modify k) := by
  intro s s' a t related run
  cases run
  exact ⟨(), k s', rfl, rfl, keeps s s' related⟩

theorem inspect {f k : σ → Except Fault α}
    (agree : ∀ s s' a, R s s' → f s = .ok a → ∃ a', k s' = .ok a' ∧ P a a') :
    Lockstep R P (inspect f) (inspect k) := by
  intro s s' a t related run
  cases found : f s with
  | error fault =>
    rw [Edit.inspect, found] at run
    cases run
  | ok b =>
    rw [inspect_ok found] at run
    cases run
    obtain ⟨a', found', same⟩ := agree s s' a related found
    exact ⟨a', s', inspect_ok found', same, related⟩

theorem onPart {part : σ → τ} {replace : σ → τ → σ} {x y : Edit τ α}
    (parts : ∀ s s', R s s' → T (part s) (part s'))
    (replaces : ∀ s s' t t', R s s' → T t t' → R (replace s t) (replace s' t'))
    (inside : Lockstep T P x y) : Lockstep R P (onPart part replace x) (onPart part replace y) := by
  intro s s' a u related run
  cases ran : x (part s) with
  | error fault t =>
    rw [Edit.onPart, ran] at run
    cases run
  | ok b t =>
    rw [onPart_ok ran] at run
    cases run
    obtain ⟨a', t', ran', same, related'⟩ := inside _ _ _ _ (parts s s' related) ran
    exact ⟨a', _, onPart_ok ran', same, replaces s s' t t' related related'⟩

variable {l : List α} {l' : List α}

theorem forM {f k : α → Edit σ Unit} (related : List.Forall₂ P l l')
    (each : ∀ a a', P a a' → Lockstep R Eq (f a) (k a')) : Lockstep R Eq (l.forM f) (l'.forM k) := by
  induction related with
  | nil => exact .pure rfl
  | cons first _ ih => exact (each _ _ first).bind_eq fun _ => ih

theorem forM_self {f k : α → Edit σ Unit} (each : ∀ a, Lockstep R Eq (f a) (k a)) :
    Lockstep R Eq (l.forM f) (l.forM k) := by
  refine forM (P := Eq) (List.forall₂_same.2 fun _ _ => rfl) fun a a' same => ?_
  subst same
  exact each a

theorem foldlM_self {f k : β → α → Edit σ β} (each : ∀ b a, Lockstep R Eq (f b a) (k b a)) (b : β) :
    Lockstep R Eq (l.foldlM f b) (l.foldlM k b) := by
  induction l generalizing b with
  | nil => exact .pure rfl
  | cons a l ih => exact (each b a).bind_eq ih

end Lockstep

end Edit

open Edit

/-! ## Blocks and graphs that differ in their fragments -/

variable {S : List String → List String → Prop} {x x' y y' : Block} {g g' : Graph}

/-- A relation between lists of fragments that can be put together. -/
structure Concatenates (S : List String → List String → Prop) : Prop where
  nil : S [] []
  append : ∀ {lines lines' more more'}, S lines lines' → S more more' →
    S (lines ++ more) (lines' ++ more')
  isEmpty : ∀ {lines lines'}, S lines lines' → lines.isEmpty = lines'.isEmpty

/-- The blocks differ in their fragments only, and those are related. -/
structure Block.Echoes (S : List String → List String → Prop) (x x' : Block) : Prop where
  bare : { x with lines := [] } = { x' with lines := [] }
  lines : S x.lines x'.lines

/-- The graphs differ in their heading and in the fragments of their blocks only. -/
structure Graph.Echoes (S : List String → List String → Prop) (g g' : Graph) : Prop where
  size : g.arena.size = g'.arena.size
  blocks : ∀ h, Option.Rel (Block.Echoes S) (g.block? h) (g'.block? h)
  table : g.table = g'.table
  numbering : g.numbering = g'.numbering
  phase : g.phase = g'.phase

/-- The builders stand at the same place, and their graphs differ in fragments only. -/
structure Builder.Echoes (S : List String → List String → Prop) (b b' : Builder) : Prop where
  graph : b.graph.Echoes S b'.graph
  current : b.current = b'.current
  scopes : b.scopes = b'.scopes

namespace Block

/-- The change does not depend on the fragments, and keeps them. -/
def Ignores (f : Block → Block) : Prop := ∀ x lines, f { x with lines } = { f x with lines }

theorem Ignores.echoes {f : Block → Block} (ignores : Ignores f) (echoes : x.Echoes S x') :
    (f x).Echoes S (f x') where
  bare := by rw [← ignores, ← ignores, echoes.bare]
  lines := by
    have kept : ∀ x, (f x).lines = x.lines := fun x =>
      (congrArg Block.lines (ignores x x.lines) :)
    rw [kept, kept]
    exact echoes.lines

namespace Echoes

variable (echoes : x.Echoes S x')

include echoes

theorem kind : x.kind = x'.kind :=
  (congrArg Block.kind echoes.bare :)

theorem id : x.id = x'.id :=
  (congrArg Block.id echoes.bare :)

theorem sealing : x.sealed = x'.sealed :=
  (congrArg Block.sealed echoes.bare :)

theorem predecessors : x.predecessors = x'.predecessors :=
  (congrArg Block.predecessors echoes.bare :)

theorem successors : x.successors = x'.successors :=
  (congrArg Block.successors echoes.bare :)

theorem isAlive : x.isAlive = x'.isAlive := by
  rw [Block.isAlive, Block.isAlive, echoes.kind, echoes.id]

theorem addLines (joins : Concatenates S) {lines lines' : List String} (related : S lines lines') :
    (x.addLines lines).Echoes S (x'.addLines lines') :=
  ⟨echoes.bare, joins.append echoes.lines related⟩

theorem withTargetsOf (taken : y.Echoes S y') :
    (x.withTargetsOf y).Echoes S (x'.withTargetsOf y') where
  bare := (congrArg₂ Block.withTargetsOf echoes.bare taken.bare :)
  lines := echoes.lines

end Echoes

end Block

/-! ## Edits of graphs -/

namespace Graph

theorem Echoes.block (echoes : g.Echoes S g') {h : Nat} (found : g.block? h = some x) :
    ∃ x', g'.block? h = some x' ∧ x.Echoes S x' := by
  have related := echoes.blocks h
  rw [found] at related
  generalize g'.block? h = o at related
  cases related with
  | some alike => exact ⟨_, rfl, alike⟩

theorem Echoes.find {h : Nat} (echoes : g.Echoes S g') (found : g.find h = .ok x) :
    ∃ x', g'.find h = .ok x' ∧ x.Echoes S x' := by
  obtain ⟨x', found', alike⟩ := echoes.block (find_eq_ok.1 found)
  exact ⟨x', find_eq_ok.2 found', alike⟩

theorem lockstep_look (h : Nat) : Lockstep (Echoes S) (Block.Echoes S) (look h) (look h) :=
  .inspect fun _ _ _ echoes found => echoes.find found

theorem Echoes.revise (echoes : g.Echoes S g') (h : Nat) {f k : Block → Block}
    (keeps : ∀ x x', x.Echoes S x' → (f x).Echoes S (k x')) :
    (g.revise h f).Echoes S (g'.revise h k) where
  size := by simp [echoes.size]
  blocks j := by
    rw [block?_revise, block?_revise]
    split
    · have related := echoes.blocks j
      generalize g.block? j = o at related
      generalize g'.block? j = o' at related
      cases related with
      | none => exact .none
      | some alike => exact .some (keeps _ _ alike)
    · exact echoes.blocks j
  table := echoes.table
  numbering := echoes.numbering
  phase := echoes.phase

theorem lockstep_change (h : Nat) {f k : Block → Block}
    (keeps : ∀ x x', x.Echoes S x' → (f x).Echoes S (k x')) :
    Lockstep (Echoes S) Eq (change h f) (change h k) := by
  intro g g' a t echoes run
  cases found : g.block? h with
  | none =>
    simp [change, found] at run
  | some x =>
    rw [change_ok f found] at run
    cases run
    obtain ⟨x', found', -⟩ := echoes.block found
    exact ⟨(), _, change_ok k found', rfl, echoes.revise h keeps⟩

theorem lockstep_change_ignores (h : Nat) {f : Block → Block} (ignores : Block.Ignores f) :
    Lockstep (Echoes S) Eq (change h f) (change h f) :=
  lockstep_change h fun _ _ => ignores.echoes

theorem lockstep_allocate (joins : Concatenates S) (kind : BlockKind) :
    Lockstep (Echoes S) Eq (allocate kind) (allocate kind) := by
  intro g g' a t echoes run
  cases run
  refine ⟨_, _, rfl, echoes.size, ?_⟩
  refine ⟨by simp [echoes.size], fun j => ?_, echoes.table, echoes.numbering, echoes.phase⟩
  have related := echoes.blocks j
  simp only [block?, Array.getElem?_push, echoes.size] at related ⊢
  split
  · exact .some ⟨rfl, joins.nil⟩
  · exact related

theorem lockstep_register (h : Nat) : Lockstep (Echoes S) Eq (register h) (register h) := by
  refine Lockstep.get.bind fun g g' echoes => ?_
  rw [echoes.table]
  refine (Lockstep.modify fun g₁ g₁' echoes₁ => ?_).bind_eq fun _ => ?_
  · exact ⟨echoes₁.size, echoes₁.blocks, by rw [echoes₁.table], echoes₁.numbering, echoes₁.phase⟩
  · exact (lockstep_change_ignores h fun _ _ => rfl).bind_eq fun _ => .pure rfl

theorem lockstep_connect (a b : Nat) : Lockstep (Echoes S) Eq (connect a b) (connect a b) :=
  (lockstep_change_ignores a fun _ _ => rfl).bind_eq fun _ =>
    lockstep_change_ignores b fun _ _ => rfl

theorem lockstep_disconnect (a b : Nat) :
    Lockstep (Echoes S) Eq (disconnect a b) (disconnect a b) :=
  (lockstep_change_ignores a fun _ _ => rfl).bind_eq fun _ =>
    lockstep_change_ignores b fun _ _ => rfl

end Graph

/-! ## Calls on builders -/

namespace Builder

open Flowgraph.Graph (lockstep_change_ignores lockstep_connect lockstep_disconnect lockstep_register
  lockstep_allocate)

variable {α : Type} {P : α → α → Prop}

theorem lockstep_onGraph {e e' : Edit Graph α} (inside : Lockstep (Graph.Echoes S) P e e') :
    Lockstep (Echoes S) P (onGraph e) (onGraph e') :=
  .onPart (fun _ _ echoes => echoes.graph)
    (fun _ _ _ _ echoes graph => ⟨graph, echoes.current, echoes.scopes⟩) inside

theorem lockstep_currentBlock :
    Lockstep (Echoes S) (Block.Echoes S) currentBlock currentBlock := by
  refine .inspect fun b b' x echoes found => ?_
  rw [← echoes.current]
  exact echoes.graph.find found

theorem lockstep_currentHandle : Lockstep (Echoes S) Eq currentHandle currentHandle :=
  Lockstep.get.bind fun _ _ echoes => .pure echoes.current

theorem lockstep_rewind : Lockstep (Echoes S) Eq rewind rewind := by
  unfold rewind
  refine Lockstep.get.bind fun b b' echoes => ?_
  rw [← echoes.scopes]
  cases b.scopes with
  | nil => exact .throw _
  | cons scope rest => exact .modify fun _ _ echoes => ⟨echoes.graph, rfl, echoes.scopes⟩

theorem lockstep_close : Lockstep (Echoes S) Eq close close := by
  unfold close
  refine Lockstep.get.bind fun b b' echoes => ?_
  rw [← echoes.scopes]
  cases b.scopes with
  | nil => exact .throw _
  | cons scope rest =>
    refine (Lockstep.modify fun _ _ echoes => ?_).bind_eq fun _ => ?_
    · exact ⟨echoes.graph, rfl, rfl⟩
    · refine lockstep_currentBlock.bind fun x x' alike => ?_
      rw [← alike.id, ← alike.sealing]
      split
      · exact (lockstep_onGraph (lockstep_register scope.stop)).bind_eq fun _ => .pure rfl
      · exact .pure rfl

theorem lockstep_sealToExit : Lockstep (Echoes S) Eq sealToExit sealToExit := by
  unfold sealToExit
  refine lockstep_currentHandle.bind_eq fun current => ?_
  refine lockstep_currentBlock.bind fun x x' alike => ?_
  rw [← alike.successors]
  refine lockstep_onGraph ((Lockstep.forM_self fun next => lockstep_disconnect current next).bind_eq
    fun _ => (lockstep_connect current Graph.exit).bind_eq fun _ => ?_)
  exact lockstep_change_ignores current fun _ _ => rfl

/-- A scope that is closed in any case ends well only if the work inside does. -/
theorem lockstep_closing {body body' : Build Unit} (inside : Lockstep (Echoes S) Eq body body') :
    Lockstep (Echoes S) Eq (closing body) (closing body') := by
  intro b b' a t echoes run
  cases ran : body b with
  | error fault b₁ =>
    -- The scope is closed, but the fault stays.
    rw [closing, ran] at run
    cases closed : close b₁ <;> simp [closed] at run
  | ok u b₁ =>
    obtain ⟨u', b₁', ran', -, echoes'⟩ := inside b b' u b₁ echoes ran
    simp only [closing, ran] at run
    obtain ⟨a', t', run', same, echoes''⟩ := lockstep_close b₁ b₁' a t echoes' run
    exact ⟨a', t', by simp only [closing, ran', run'], same, echoes''⟩

/-- Opening a scope on top of the others. -/
theorem lockstep_push (scope : Builder → Scope)
    (same : ∀ b b', Echoes S b b' → scope b = scope b') :
    Lockstep (Echoes S) Eq (modify fun b => { b with scopes := scope b :: b.scopes })
      (modify fun b => { b with scopes := scope b :: b.scopes }) :=
  .modify fun b b' echoes => ⟨echoes.graph, echoes.current, by rw [same b b' echoes, echoes.scopes]⟩

/-- Noting the current block as a target of another one. -/
theorem lockstep_record (h : Nat) (f : Nat → Block → Block) (ignores : ∀ t, Block.Ignores (f t)) :
    Lockstep (Echoes S) Eq (currentHandle >>= fun t => onGraph (Graph.change h (f t)))
      (currentHandle >>= fun t => onGraph (Graph.change h (f t))) :=
  lockstep_currentHandle.bind_eq fun t =>
    lockstep_onGraph (lockstep_change_ignores h (ignores t))

theorem lockstep_recordThen (h : Nat) : Lockstep (Echoes S) Eq (recordThen h) (recordThen h) :=
  lockstep_record h (fun t x => { x with thenTarget := some t }) fun _ _ _ => rfl

theorem lockstep_recordElse (h : Nat) : Lockstep (Echoes S) Eq (recordElse h) (recordElse h) :=
  lockstep_record h (fun t x => { x with elseTarget := some t }) fun _ _ _ => rfl

theorem lockstep_recordLoopExit (h : Nat) :
    Lockstep (Echoes S) Eq (recordLoopExit h) (recordLoopExit h) :=
  lockstep_record h (fun t x => { x with loopExit := some t }) fun _ _ _ => rfl

theorem lockstep_finish : Lockstep (Echoes S) (Graph.Echoes S) finish finish := by
  unfold finish
  refine Lockstep.get.bind fun b b' echoes => ?_
  have depth : b.depth = b'.depth := by rw [Builder.depth, Builder.depth, echoes.scopes]
  rw [← depth]
  split
  · exact .pure echoes.graph
  · exact .throw _

/-- Without a block to write to nothing can be added. -/
theorem append_of_unknown {b : Builder} (unknown : b.graph.block? b.current = none) (line : String) :
    append line b = .error (.noBlock b.graph.name b.current) b := by
  have stopped : currentBlock b = .error (.noBlock b.graph.name b.current) b := by
    simp [currentBlock, Edit.inspect, Graph.find, unknown]
  exact Edit.bind_error stopped

section Joins

variable (joins : Concatenates S)

include joins

theorem lockstep_splice : Lockstep (Echoes S) Eq splice splice := by
  unfold splice
  refine lockstep_currentBlock.bind fun x x' alike => ?_
  rw [← alike.sealing]
  split
  · exact .pure rfl
  · refine Lockstep.get.bind fun b b' echoes => ?_
    have stop : b.fallthrough = b'.fallthrough := by
      rw [fallthrough, fallthrough, echoes.scopes]
    rw [← echoes.current, ← stop]
    -- the four edits of the graph, in their order
    have inside := (lockstep_allocate joins .body).bind_eq fun block =>
      (lockstep_disconnect b.current b.fallthrough).bind_eq fun _ =>
        (lockstep_connect b.current block).bind_eq fun _ =>
          (lockstep_connect block b.fallthrough).bind_eq fun _ =>
            Lockstep.pure (P := Eq) (Eq.refl block)
    refine (lockstep_onGraph inside).bind_eq fun block => ?_
    refine (Lockstep.modify fun b b' echoes => ?_).bind_eq fun _ => .pure rfl
    exact ⟨echoes.graph, rfl, echoes.scopes⟩

theorem lockstep_advance : Lockstep (Echoes S) Eq advance advance := by
  unfold advance
  refine (lockstep_splice joins).bind_eq fun o => ?_
  cases o with
  | none => exact .pure rfl
  | some _ =>
    refine lockstep_currentHandle.bind_eq fun h => ?_
    exact (lockstep_onGraph (lockstep_register h)).bind_eq fun _ => .pure rfl

theorem lockstep_openLoop : Lockstep (Echoes S) Eq openLoop openLoop := by
  unfold openLoop
  refine (lockstep_advance joins).bind_eq fun opened => ?_
  cases opened with
  | false => exact .pure rfl
  | true =>
    refine (lockstep_push (fun b => ⟨b.current, b.current⟩) fun b b' echoes => ?_).bind_eq
      fun _ => .pure rfl
    rw [echoes.current]

theorem lockstep_openBranch : Lockstep (Echoes S) Eq openBranch openBranch := by
  unfold openBranch
  refine (lockstep_splice joins).bind_eq fun o => ?_
  cases o with
  | none => exact .pure rfl
  | some branching =>
    refine (lockstep_push (fun b => ⟨branching, b.current⟩) fun b b' echoes => ?_).bind_eq
      fun _ => .pure rfl
    rw [echoes.current]

theorem lockstep_withBranch {body body' : Build Unit} (inside : Lockstep (Echoes S) Eq body body') :
    Lockstep (Echoes S) Eq (withBranch body) (withBranch body') := by
  unfold withBranch
  refine (lockstep_openBranch joins).bind_eq fun opened => ?_
  cases opened with
  | false => exact .pure rfl
  | true => exact (lockstep_closing inside).bind_eq fun _ => .pure rfl

theorem lockstep_withLoop {body body' : Build Unit} (inside : Lockstep (Echoes S) Eq body body') :
    Lockstep (Echoes S) Eq (withLoop body) (withLoop body') := by
  unfold withLoop
  refine (lockstep_openLoop joins).bind_eq fun opened => ?_
  cases opened with
  | false => exact .pure rfl
  | true => exact lockstep_closing inside

theorem lockstep_appendAll {lines lines' : List String} (related : S lines lines') :
    Lockstep (Echoes S) Eq (appendAll lines) (appendAll lines') := by
  intro b b' a t echoes run
  cases known : b.graph.block? b.current with
  | none =>
    cases lines with
    | nil =>
      obtain rfl : lines' = [] := by simpa using (joins.isEmpty related).symm
      cases run
      exact ⟨(), b', rfl, rfl, echoes⟩
    | cons line lines =>
      have failed : appendAll (line :: lines) b = .error (.noBlock b.graph.name b.current) b :=
        Edit.bind_error (discard_error (append_of_unknown known line))
      rw [failed] at run
      cases run
  | some x =>
    -- `appendAll` is compared as a whole: the two lists need not be equally long
    obtain ⟨x', known', alike⟩ := echoes.graph.block known
    rw [echoes.current] at known'
    have core := Graph.core?_eq_some.2 ⟨x, known, rfl⟩
    have core' := Graph.core?_eq_some.2 ⟨x', known', rfl⟩
    cases full : x.sealed with
    | true =>
      rw [appendAll_of_sealed core full] at run
      cases run
      exact ⟨(), b', appendAll_of_sealed core' (alike.sealing ▸ full) lines', rfl, echoes⟩
    | false =>
      rw [appendAll_run lines core full] at run
      cases run
      refine ⟨(), _, appendAll_run lines' core' (alike.sealing ▸ full), rfl, ?_⟩
      refine ⟨?_, echoes.current, echoes.scopes⟩
      rw [appended, appended, ← echoes.current]
      exact echoes.graph.revise b.current fun _ _ same => same.addLines joins related

theorem lockstep_leaveLoop : Lockstep (Echoes S) Eq leaveLoop leaveLoop :=
  lockstep_currentHandle.bind_eq fun header => (lockstep_advance joins).bind_eq fun _ =>
    lockstep_recordLoopExit header

/-- A loop, from its header to the block at which control goes on. -/
theorem lockstep_loop {header header' : List String} {inside inside' : Build Unit}
    (related : S header header') (each : Lockstep (Echoes S) Eq inside inside') :
    Lockstep (Echoes S) Eq
      (do
        let resumed ← withLoop do
          appendAll header
          let _ ← advance
          inside
        if resumed then leaveLoop)
      (do
        let resumed ← withLoop do
          appendAll header'
          let _ ← advance
          inside'
        if resumed then leaveLoop) := by
  refine (lockstep_withLoop joins ?_).bind_eq fun resumed => ?_
  · exact (lockstep_appendAll joins related).bind_eq fun _ =>
      (lockstep_advance joins).bind_eq fun _ => each
  · cases resumed with
    | false => exact .pure rfl
    | true => exact lockstep_leaveLoop joins

end Joins

end Builder

/-! ## Passes over graphs -/

namespace Graph

theorem lockstep_drop (h : Nat) : Lockstep (Echoes S) Eq (drop h) (drop h) := by
  refine (lockstep_change_ignores h fun _ _ => rfl).bind_eq fun _ => ?_
  refine (lockstep_look h).bind fun x x' alike => ?_
  rw [← alike.successors]
  exact .forM_self fun next => lockstep_change_ignores next fun _ _ => rfl

theorem lockstep_sweepBlock (s : Sweep) (h : Nat) :
    Lockstep (Echoes S) Eq (sweepBlock s h) (sweepBlock s h) := by
  refine (lockstep_look h).bind fun x x' alike => ?_
  rw [← alike.successors]
  split
  · exact .pure rfl
  · exact (lockstep_drop h).bind_eq fun _ => .pure rfl

theorem lockstep_dropUnreachable : Lockstep (Echoes S) Eq dropUnreachable dropUnreachable := by
  refine Lockstep.get.bind fun g g' echoes => ?_
  rw [← echoes.table]
  exact (Lockstep.foldlM_self lockstep_sweepBlock _).bind_eq fun s => .pure rfl

theorem lockstep_soleSuccessor (h : Nat) :
    Lockstep (Echoes S) Eq (Edit.inspect (soleSuccessor · h)) (Edit.inspect (soleSuccessor · h)) := by
  refine .inspect fun g g' next echoes found => ?_
  simp only [soleSuccessor, bind, Except.bind] at found ⊢
  cases known : g.find h with
  | error fault => simp [known] at found
  | ok x =>
    obtain ⟨x', known', alike⟩ := echoes.find known
    rw [known] at found
    simp only [known', ← alike.successors]
    cases first : x.successors.first? with
    | none => simp [first] at found
    | some v => exact ⟨v, rfl, by simpa [first, pure, Except.pure] using found.symm⟩

theorem lockstep_bypass (h : Nat) : Lockstep (Echoes S) Eq (bypass h) (bypass h) := by
  refine (lockstep_soleSuccessor h).bind_eq fun next => ?_
  refine (lockstep_look h).bind fun x x' alike => ?_
  rw [← alike.predecessors]
  refine (Lockstep.forM_self fun p => ?_).bind_eq fun _ => ?_
  · -- A predecessor goes around the block.
    refine (lockstep_change_ignores p fun _ _ => rfl).bind_eq fun _ => ?_
    refine (lockstep_look h).bind fun x x' alike => ?_
    rw [← alike.successors]
    exact lockstep_change_ignores p fun _ _ => rfl
  · refine (lockstep_look h).bind fun x x' alike => ?_
    rw [← alike.successors]
    refine (Lockstep.forM_self fun s => ?_).bind_eq fun _ => lockstep_change_ignores h fun _ _ => rfl
    refine (lockstep_change_ignores s fun _ _ => rfl).bind_eq fun _ => ?_
    refine (lockstep_look h).bind fun x x' alike => ?_
    rw [← alike.predecessors]
    exact lockstep_change_ignores s fun _ _ => rfl

/-- The same blocks under the same handles. -/
def Filed (S : List String → List String → Prop) (a a' : Nat × Block) : Prop :=
  a.1 = a'.1 ∧ a.2.Echoes S a'.2

/-- Filtering keeps the same blocks if the condition ignores fragments. -/
theorem filter_filed {p : Block → Bool} {l l' : List (Nat × Block)}
    (ignores : ∀ x x', x.Echoes S x' → p x = p x') (alike : List.Forall₂ (Filed S) l l') :
    List.Forall₂ (Filed S) (l.filter (p ·.2)) (l'.filter (p ·.2)) := by
  refine List.rel_filter ?_ alike
  intro a a' same
  exact iff_of_eq (congrArg (· = true) (ignores a.2 a'.2 same.2))

theorem Echoes.mapM_find (echoes : g.Echoes S g') {table : List Nat} {l : List (Nat × Block)}
    (found : table.mapM (fun h => return (h, ← g.find h)) = .ok l) :
    ∃ l', table.mapM (fun h => return (h, ← g'.find h)) = .ok l' ∧ List.Forall₂ (Filed S) l l' := by
  induction table generalizing l with
  | nil =>
    cases found
    exact ⟨[], rfl, .nil⟩
  | cons h table ih =>
    rw [List.mapM_cons] at found
    cases known : g.find h with
    | error fault =>
      simp only [known] at found
      cases found
    | ok x =>
      cases rest : table.mapM (fun h => return (h, ← g.find h)) with
      | error fault =>
        simp only [known, rest] at found
        cases found
      | ok later =>
        obtain ⟨x', known', alike⟩ := echoes.find known
        obtain ⟨later', rest', same⟩ := ih rest
        simp only [known, rest] at found
        cases found
        refine ⟨(h, x') :: later', ?_, .cons ⟨rfl, alike⟩ same⟩
        simp only [List.mapM_cons, known', rest']
        rfl

theorem lockstep_alive :
    Lockstep (Echoes S) (List.Forall₂ (Filed S)) (Edit.inspect alive) (Edit.inspect alive) := by
  refine .inspect fun g g' blocks echoes found => ?_
  rw [alive, ← echoes.table]
  cases known : g.table.mapM (fun h => return (h, ← g.find h)) with
  | error fault =>
    rw [alive, known] at found
    cases found
  | ok l =>
    obtain ⟨l', known', alike⟩ := echoes.mapM_find known
    rw [alive, known] at found
    cases found
    rw [known']
    exact ⟨_, rfl, filter_filed (fun _ _ same => same.isAlive) alike⟩

theorem lockstep_renumber : Lockstep (Echoes S) Eq renumber renumber := by
  refine (Lockstep.modify fun g g' echoes => ?_).bind_eq fun _ => ?_
  · exact ⟨echoes.size, echoes.blocks, echoes.table, rfl, echoes.phase⟩
  · refine lockstep_alive.bind fun blocks blocks' alike => ?_
    -- the numbering is a fold over handles alone
    have numbering : ∀ n : Numbering, blocks.foldl (fun n block => n.set block.1 n.size) n =
        blocks'.foldl (fun n block => n.set block.1 n.size) n := by
      induction alike with
      | nil => exact fun _ => rfl
      | cons first _ ih =>
        intro n
        rw [List.foldl_cons, List.foldl_cons, first.1]
        exact ih _
    rw [← numbering]
    refine (Lockstep.modify fun g g' echoes => ?_).bind_eq fun _ => .pure rfl
    exact ⟨echoes.size, echoes.blocks, echoes.table, rfl, echoes.phase⟩

theorem lockstep_absorbable? (h : Nat) :
    Lockstep (Echoes S) Eq (absorbable? h) (absorbable? h) := by
  refine (lockstep_look h).bind fun x x' alike => ?_
  rw [← alike.successors]
  split
  · refine (lockstep_look _).bind fun y y' alike' => ?_
    rw [← alike'.kind, ← alike'.predecessors]
    split <;> exact .pure rfl
  · exact .pure rfl

section Joins

variable (joins : Concatenates S)

include joins

theorem lockstep_elideEmpty : Lockstep (Echoes S) Eq elideEmpty elideEmpty := by
  refine lockstep_alive.bind fun blocks blocks' alike => ?_
  have empty := filter_filed (p := (·.lines.isEmpty))
    (fun x x' same => joins.isEmpty same.lines) alike
  refine (Lockstep.forM empty fun a a' same => ?_).bind_eq fun _ => .pure empty.length_eq
  obtain ⟨h, x⟩ := a
  obtain ⟨h', x'⟩ := a'
  obtain rfl : h = h' := same.1
  exact lockstep_bypass h

theorem lockstep_absorb (h next : Nat) : Lockstep (Echoes S) Eq (absorb h next) (absorb h next) := by
  refine (lockstep_look next).bind fun taken taken' alike => ?_
  refine (lockstep_change h fun x x' echoes => ?_).bind_eq fun _ => ?_
  · exact Block.Ignores.echoes (f := (·.dropSuccessor next)) (fun _ _ => rfl)
      (echoes.addLines joins alike.lines)
  · rw [← alike.successors]
    refine (Lockstep.forM_self fun s => ?_).bind_eq fun _ => ?_
    · exact (lockstep_change_ignores s fun _ _ => rfl).bind_eq fun _ =>
        lockstep_change_ignores h fun _ _ => rfl
    · exact (lockstep_change h fun x x' echoes => echoes.withTargetsOf alike).bind_eq fun _ =>
        lockstep_change_ignores next fun _ _ => rfl

theorem lockstep_absorbAll (h fuel : Nat) :
    Lockstep (Echoes S) Eq (absorbAll h fuel) (absorbAll h fuel) := by
  induction fuel with
  | zero => exact .pure rfl
  | succ fuel ih =>
    refine (lockstep_absorbable? h).bind_eq fun found => ?_
    cases found with
    | none => exact .pure rfl
    | some next =>
      exact (lockstep_absorb joins h next).bind_eq fun _ => ih.bind_eq fun _ => .pure rfl

theorem lockstep_mergeFrom (h : Nat) : Lockstep (Echoes S) Eq (mergeFrom h) (mergeFrom h) := by
  refine (lockstep_look h).bind fun x x' alike => ?_
  rw [← alike.id]
  split
  · exact .pure rfl
  · refine Lockstep.get.bind fun g g' echoes => ?_
    rw [← echoes.size]
    exact lockstep_absorbAll joins h _

theorem lockstep_mergeChains : Lockstep (Echoes S) Eq mergeChains mergeChains := by
  refine Lockstep.get.bind fun g g' echoes => ?_
  rw [← echoes.table]
  exact .foldlM_self (fun merged h => (lockstep_mergeFrom joins h).bind_eq fun _ => .pure rfl) 0

/-- Pruning does the same to graphs that differ in fragments only. -/
theorem lockstep_prune : Lockstep (Echoes S) Eq prune prune := by
  refine Lockstep.get.bind fun g g' echoes => ?_
  rw [← echoes.phase, ← echoes.table]
  split
  · exact .throw _
  · refine lockstep_dropUnreachable.bind_eq fun unreachable => ?_
    refine (lockstep_elideEmpty joins).bind_eq fun elided => ?_
    refine (lockstep_mergeChains joins).bind_eq fun merged => ?_
    refine lockstep_renumber.bind_eq fun surviving => ?_
    refine (Lockstep.modify fun g g' echoes => ?_).bind_eq fun _ => .pure rfl
    exact ⟨echoes.size, echoes.blocks, echoes.table, echoes.numbering, rfl⟩

end Joins

end Graph

end Flowgraph
