import Flowgraph.Proofs.Construction
import Flowgraph.Proofs.Regular
import Mathlib.Data.List.Nodup

/-!
# Calls in any order

A builder may be used in any order: calls may be refused because a block is sealed, and they may
fail because no scope is open.  Whatever is called, the graph stays one in which every block leads
somewhere, the blocks without a number are the ends of open scopes, and a sealed block stays as it
is.

Every call makes one of a few steps (`Builder.Step`), and a step keeps what is to be kept.
-/

namespace Flowgraph

open Edit Builder

/-- The calls that can be made on a builder from outside. -/
inductive Call where
  | append (text : String)
  | advance
  | openLoop
  | openBranch
  | rewind
  | close
  | sealToExit
  | recordThen (branching : Nat)
  | recordElse (branching : Nat)
  | recordLoopExit (header : Nat)
  | finish
  deriving DecidableEq, Repr

namespace Call

/-- Make the call, whatever it answers. -/
def perform : Call → Build Unit
  | append text => discard (Builder.append text)
  | advance => discard Builder.advance
  | openLoop => discard Builder.openLoop
  | openBranch => discard Builder.openBranch
  | rewind => Builder.rewind
  | close => discard Builder.close
  | sealToExit => Builder.sealToExit
  | recordThen branching => Builder.recordThen branching
  | recordElse branching => Builder.recordElse branching
  | recordLoopExit header => Builder.recordLoopExit header
  | finish => discard Builder.finish

/-- The builder after the call, whether it ended well or not. -/
def after (call : Call) (b : Builder) : Builder := final call.perform b

end Call

namespace Builder

variable {b b' : Builder} {x : Block} {h : Nat} {s : Scope} {rest : List Scope}

/-- The builder after the calls of a list. -/
def after (b : Builder) (calls : List Call) : Builder := calls.foldl (fun b call => call.after b) b

/-- Where the open scopes began, the innermost one first. -/
def starts (b : Builder) : List Nat := b.scopes.map Scope.start

/-- Where the open scopes lead, the innermost one first. -/
def stops (b : Builder) : List Nat := b.scopes.map Scope.stop

/-- What can be seen of a builder between any two calls. -/
structure Consistent (b : Builder) : Prop where
  mirrored : b.graph.Mirrored
  entry : ∃ x, b.graph.block? Graph.entry = some x ∧ x.kind = .entry ∧ x.predecessors = ∅
  exit : ∃ x, b.graph.block? Graph.exit = some x ∧ x.kind = .exit ∧ x.successors = ∅
  leads : ∀ h x, b.graph.block? h = some x → h ≠ Graph.exit → x.successors ≠ ∅
  closes : ∀ h x, b.graph.block? h = some x → x.sealed = true →
    x.successors = .singleton Graph.exit
  numbers : ∀ i h, b.graph.table[i]? = some h ↔ ∃ x, b.graph.block? h = some x ∧ x.id = some i
  nodup : b.graph.table.Nodup
  balanced : b.starts.length = b.stops.length
  rewinds : (∃ fault b', rewind b = .error fault b') ↔ b.starts = []
  shuts : (∃ fault b', close b = .error fault b') ↔ b.stops = []
  finishes : (∃ fault b', finish b = .error fault b') ↔ b.stops ≠ []
  anonymous : ∀ h, (∃ x, b.graph.block? h = some x ∧ x.kind = .body ∧ x.id = none) ↔
    h ∈ b.stops ∧ ∃ x, b.graph.block? h = some x ∧ x.id = none
  once : ∀ h x, b.graph.block? h = some x → x.kind = .body → x.id = none → b.stops.count h = 1
  complete : b.depth = 0 → ∀ h, b.graph.Body h → h ∈ b.graph.table

/-- What holds of a builder between any two calls. -/
structure Regular (b : Builder) : Prop where
  graph : b.graph.Regular
  current : b.graph.Body b.current
  starts : ∀ s ∈ b.scopes, b.graph.Body s.start
  stops : ∀ s ∈ b.scopes, b.graph.Body s.stop
  once : b.stops.Nodup
  anonymous : ∀ h, b.graph.Body h → b.graph.number? h = none → h ∈ b.stops

/-- What a call does to a builder. -/
inductive Step (b : Builder) : Builder → Prop where
  /-- The call was refused, or it failed, or it only looks. -/
  | idle : Step b b
  /-- Something is noted in a block. -/
  | noted {h : Nat} {f : Block → Block} (quiet : Block.Quiet f)
      (seals : ∀ x, (f x).sealed = x.sealed)
      (keeps : ∀ x, b.graph.core? h = some x → x.sealed = true → (f x).lines = x.lines) :
      Step b { b with graph := b.graph.revise h f }
  | advanced {x : Block} (known : b.graph.core? b.current = some x) (unsealed : x.sealed = false) :
      Step b b.advanced
  | openedLoop {x : Block} (known : b.graph.core? b.current = some x)
      (unsealed : x.sealed = false) :
      Step b {
        graph := b.advanced.graph
        current := b.graph.arena.size
        scopes := ⟨b.graph.arena.size, b.graph.arena.size⟩ :: b.scopes }
  | openedBranch {x : Block} (known : b.graph.core? b.current = some x)
      (unsealed : x.sealed = false) :
      Step b {
        graph := b.spliced.graph
        current := b.graph.arena.size
        scopes := ⟨b.current, b.graph.arena.size⟩ :: b.scopes }
  | rewound {s : Scope} {rest : List Scope} (scopes : b.scopes = s :: rest) :
      Step b { b with current := s.start }
  | closed {s : Scope} {rest : List Scope} {x : Block} (scopes : b.scopes = s :: rest)
      (known : b.graph.core? s.stop = some x) :
      Step b {
        graph := if x.id.isNone then b.graph.numbered s.stop else b.graph
        current := s.stop
        scopes := rest }
  | sealed {x : Block} (known : b.graph.core? b.current = some x) :
      Step b { b with graph := b.graph.sealing b.current x.successors.toList }

namespace Regular

variable (regular : b.Regular)

include regular

theorem fallthrough_lt : b.fallthrough < b.graph.arena.size := by
  unfold fallthrough
  split
  · exact regular.graph.exit_lt
  · next s rest scopes =>
    have stop := regular.stops s (by simp [scopes])
    exact (regular.graph.body_iff.1 stop).2

theorem fallthrough_ne_entry : b.fallthrough ≠ Graph.entry := by
  unfold fallthrough
  split
  · decide
  · next s rest scopes =>
    have stop := regular.stops s (by simp [scopes])
    have inside := (regular.graph.body_iff.1 stop).1
    show s.stop ≠ 0
    omega

/-- The current block, less its predecessors. -/
theorem current_core : ∃ x, b.graph.core? b.current = some x ∧ x.kind = .body :=
  Graph.body_iff_core.1 regular.current

theorem stop_core (member : s ∈ b.scopes) :
    ∃ x, b.graph.core? s.stop = some x ∧ x.kind = .body :=
  Graph.body_iff_core.1 (regular.stops s member)

end Regular

/-! ## Every call makes a step -/

theorem step_of_ok {call : Call} (run : call.perform b = .ok () b') (step : b.Step b') :
    b.Step (call.after b) := by
  rw [Call.after, final_of_ok run]
  exact step

theorem step_of_error {call : Call} {fault : Fault} (run : call.perform b = .error fault b')
    (step : b.Step b') : b.Step (call.after b) := by
  rw [Call.after, final_of_error run]
  exact step

theorem append_step (regular : b.Regular) (text : String) :
    b.Step ((Call.append text).after b) := by
  obtain ⟨x, known, -⟩ := regular.current_core
  cases full : x.sealed with
  | true => exact step_of_ok (discard_ok (append_of_sealed known full text)) .idle
  | false =>
    -- Only an open block is written to.
    have open_ : ∀ y, b.graph.core? b.current = some y → y.sealed = true →
        (y.addLines [text]).lines = y.lines := by
      intro y known' full'
      cases known.symm.trans known'
      cases full.symm.trans full'
    have step : b.Step (b.appended [text]) :=
      .noted (f := (·.addLines [text])) (by constructor <;> intro x <;> rfl) (fun _ => rfl) open_
    exact step_of_ok (discard_ok (append_run known full text)) step

/-- The calls that splice a block in are refused by a sealed block. -/
theorem splicing_step (regular : b.Regular) {call : Call} {edit : Build Bool}
    (perform : call.perform = discard edit)
    (refused : ∀ {x}, b.graph.core? b.current = some x → x.sealed = true → edit b = .ok false b)
    (run : ∀ {x}, b.graph.core? b.current = some x → x.sealed = false →
      b.fallthrough < b.graph.arena.size → edit b = .ok true b')
    (step : ∀ {x}, b.graph.core? b.current = some x → x.sealed = false → b.Step b') :
    b.Step (call.after b) := by
  obtain ⟨x, known, -⟩ := regular.current_core
  cases full : x.sealed with
  | true =>
    have stays := discard_ok (refused known full)
    exact step_of_ok (perform ▸ stays) .idle
  | false =>
    have ran := discard_ok (run known full regular.fallthrough_lt)
    exact step_of_ok (perform ▸ ran) (step known full)

theorem rewind_step : b.Step (Call.rewind.after b) := by
  cases scopes : b.scopes with
  | nil => exact step_of_error (rewind_of_closed scopes) .idle
  | cons s rest => exact step_of_ok (rewind_run scopes) (.rewound scopes)

theorem close_step (regular : b.Regular) : b.Step (Call.close.after b) := by
  cases scopes : b.scopes with
  | nil => exact step_of_error (discard_error (close_of_closed scopes)) .idle
  | cons s rest =>
    obtain ⟨x, known, -⟩ := regular.stop_core (s := s) (by simp [scopes])
    exact step_of_ok (discard_ok (close_run scopes known)) (.closed scopes known)

theorem sealToExit_step (regular : b.Regular) : b.Step (Call.sealToExit.after b) := by
  obtain ⟨x, known, -⟩ := regular.current_core
  have targets : ∀ v ∈ x.successors, v < b.graph.arena.size := by
    intro v member
    exact regular.graph.edge_lt (Graph.edge_iff_core.2 ⟨x, known, member⟩)
  exact step_of_ok (sealToExit_cuts known targets regular.graph.exit_lt) (.sealed known)

/-- Setting a target is the same for all three of them: it is noted in the block, if there is one. -/
theorem record_after {call : Call} {f : Block → Block}
    (perform : call.perform b = onGraph (Graph.change h f) b) :
    call.after b = b ∨ call.after b = { b with graph := b.graph.revise h f } := by
  cases found : b.graph.block? h with
  | none =>
    have failed : call.perform b = .error (.noBlock b.graph.name h) b := by
      rw [perform]
      simp [onGraph, onPart, Graph.change, found]
    exact .inl (final_of_error failed)
  | some x =>
    have lt := Graph.block?_isSome_iff.1 (Option.isSome_of_eq_some found)
    exact .inr (final_of_ok (perform.trans (onGraph_run (Graph.change_run f lt))))

theorem record_step {call : Call} {f : Block → Block}
    (perform : call.perform b = onGraph (Graph.change h f) b) (quiet : Block.Quiet f)
    (seals : ∀ x, (f x).sealed = x.sealed) (lines : ∀ x, (f x).lines = x.lines) :
    b.Step (call.after b) := by
  obtain same | same := record_after perform
  · rw [same]
    exact .idle
  · rw [same]
    exact .noted quiet seals fun y _ _ => lines y

theorem finish_step : b.Step (Call.finish.after b) := by
  by_cases closed : b.depth = 0
  · exact step_of_ok (discard_ok (finish_run closed)) .idle
  · exact step_of_error (discard_error (finish_of_open closed)) .idle

/-- Whatever is called, it makes one of the steps. -/
theorem Regular.step (regular : b.Regular) (call : Call) : b.Step (call.after b) := by
  cases call with
  | append text => exact append_step regular text
  | advance => exact splicing_step regular rfl advance_of_sealed advance_run .advanced
  | openLoop => exact splicing_step regular rfl openLoop_of_sealed openLoop_run .openedLoop
  | openBranch => exact splicing_step regular rfl openBranch_of_sealed openBranch_run .openedBranch
  | rewind => exact rewind_step
  | close => exact close_step regular
  | sealToExit => exact sealToExit_step regular
  | recordThen branching =>
    exact record_step (f := fun x => { x with thenTarget := some b.current }) rfl
      (by constructor <;> intro x <;> rfl) (fun _ => rfl) fun _ => rfl
  | recordElse branching =>
    exact record_step (f := fun x => { x with elseTarget := some b.current }) rfl
      (by constructor <;> intro x <;> rfl) (fun _ => rfl) fun _ => rfl
  | recordLoopExit header =>
    exact record_step (f := fun x => { x with loopExit := some b.current }) rfl
      (by constructor <;> intro x <;> rfl) (fun _ => rfl) fun _ => rfl
  | finish => exact finish_step

/-! ## What a step keeps -/

namespace Regular

variable (regular : b.Regular)

include regular

theorem noted {f : Block → Block} (quiet : Block.Quiet f) (seals : ∀ x, (f x).sealed = x.sealed) :
    ({ b with graph := b.graph.revise h f } : Builder).Regular := by
  have graph := regular.graph.revise (h := h) quiet seals
  have body : ∀ j, (b.graph.revise h f).Body j ↔ b.graph.Body j := by
    intro j
    rw [graph.body_iff, regular.graph.body_iff, Graph.size_revise]
  constructor
  · exact graph
  · exact (body _).2 regular.current
  · exact fun s member => (body _).2 (regular.starts s member)
  · exact fun s member => (body _).2 (regular.stops s member)
  · exact regular.once
  · intro j inside none
    rw [Graph.number?_revise quiet] at none
    exact regular.anonymous j ((body j).1 inside) none

theorem sealed (known : b.graph.core? b.current = some x) :
    ({ b with graph := b.graph.sealing b.current x.successors.toList } : Builder).Regular := by
  obtain ⟨y, known', kind⟩ := regular.current_core
  cases known.symm.trans known'
  have graph := regular.graph.sealing known kind
  have body : ∀ j, (b.graph.sealing b.current x.successors.toList).Body j ↔ b.graph.Body j := by
    intro j
    rw [graph.body_iff, regular.graph.body_iff, Graph.size_sealing]
  constructor
  · exact graph
  · exact (body _).2 regular.current
  · exact fun s member => (body _).2 (regular.starts s member)
  · exact fun s member => (body _).2 (regular.stops s member)
  · exact regular.once
  · intro j inside none
    rw [Graph.number?_sealing] at none
    exact regular.anonymous j ((body j).1 inside) none

theorem rewound (scopes : b.scopes = s :: rest) :
    ({ b with current := s.start } : Builder).Regular :=
  { regular with current := regular.starts s (by simp [scopes]) }

/-- The innermost scope is closed: its end is numbered if it has no number, so no block is left
without a number and without a scope. -/
theorem closed (scopes : b.scopes = s :: rest) (known : b.graph.core? s.stop = some x) :
    ({ graph := if x.id.isNone then b.graph.numbered s.stop else b.graph
       current := s.stop
       scopes := rest } : Builder).Regular := by
  have stop := regular.stops s (by simp [scopes])
  have lt := (regular.graph.body_iff.1 stop).2
  have inner : ∀ t ∈ rest, t ∈ b.scopes := fun t member => by simp [scopes, member]
  have once : (s.stop :: rest.map Scope.stop).Nodup := by
    simpa [Builder.stops, scopes] using regular.once
  have listed : ∀ j, j ∈ b.stops ↔ j = s.stop ∨ j ∈ rest.map Scope.stop := by
    intro j
    simp [Builder.stops, scopes]
  have number : b.graph.number? s.stop = x.id := by simp [Graph.number?, known]
  -- The end of a branch gets its number only now; the header of a loop has had one from the start.
  cases id : x.id with
  | none =>
    have graph := regular.graph.numbered lt (number.trans id)
    have body : ∀ j, (b.graph.numbered s.stop).Body j ↔ b.graph.Body j := by
      intro j
      rw [graph.body_iff, regular.graph.body_iff, Graph.size_numbered]
    constructor
    · exact graph
    · exact (body _).2 stop
    · exact fun t member => (body _).2 (regular.starts t (inner t member))
    · exact fun t member => (body _).2 (regular.stops t (inner t member))
    · exact (List.nodup_cons.1 once).2
    · intro j inside none
      have none : (b.graph.numbered s.stop).number? j = .none := none
      rw [Graph.number?_numbered lt] at none
      split at none
      · cases none
      · next other =>
        have member := (listed j).1 (regular.anonymous j ((body j).1 inside) none)
        exact member.resolve_left (Ne.symm other)
  | some i =>
    constructor
    · exact regular.graph
    · exact stop
    · exact fun t member => regular.starts t (inner t member)
    · exact fun t member => regular.stops t (inner t member)
    · exact (List.nodup_cons.1 once).2
    · intro j inside none
      have member := (listed j).1 (regular.anonymous j inside none)
      refine member.resolve_left fun same => ?_
      subst same
      cases (number.symm.trans none).symm.trans id

section Spliced

variable (known : b.graph.core? b.current = some x) (unsealed : x.sealed = false)

include known unsealed

theorem spliced_graph : b.spliced.graph.Regular := by
  obtain ⟨y, known', kind⟩ := regular.current_core
  cases known.symm.trans known'
  exact regular.graph.spliced known kind unsealed regular.fallthrough_lt
    regular.fallthrough_ne_entry

theorem body_spliced (body : b.graph.Body h) : b.spliced.graph.Body h := by
  apply regular.graph.body_mono (regular.spliced_graph known unsealed).toWired _ body
  simp [spliced]

theorem new_spliced : b.spliced.graph.Body b.graph.arena.size := by
  have large := (regular.graph.body_iff.1 regular.current)
  apply (regular.spliced_graph known unsealed).body_iff.2
  simp only [spliced, Graph.size_spliced]
  omega

/-- Every block but the new one is as it was. -/
theorem anonymous_spliced (body : b.spliced.graph.Body h) (none : b.spliced.graph.number? h = none)
    (old : h ≠ b.graph.arena.size) : h ∈ b.stops := by
  have inside := (regular.spliced_graph known unsealed).body_iff.1 body
  simp only [spliced, Graph.size_spliced] at inside
  apply regular.anonymous h
  · apply regular.graph.body_iff.2
    omega
  · have number := Graph.number?_spliced (k := b.fallthrough) (current_lt known) h
    exact number.symm.trans none

omit known unsealed in
/-- The ends of the scopes are older than a new block. -/
theorem new_not_stop : b.graph.arena.size ∉ b.stops := by
  intro member
  obtain ⟨s, inside, same⟩ := List.mem_map.1 member
  have lt := (regular.graph.body_iff.1 (regular.stops s inside)).2
  omega

theorem openedBranch :
    ({ graph := b.spliced.graph
       current := b.graph.arena.size
       scopes := ⟨b.current, b.graph.arena.size⟩ :: b.scopes } : Builder).Regular := by
  have new := regular.new_spliced known unsealed
  constructor
  · exact regular.spliced_graph known unsealed
  · exact new
  · intro t member
    obtain rfl | member := List.mem_cons.1 member
    · exact regular.body_spliced known unsealed regular.current
    · exact regular.body_spliced known unsealed (regular.starts t member)
  · intro t member
    obtain rfl | member := List.mem_cons.1 member
    · exact new
    · exact regular.body_spliced known unsealed (regular.stops t member)
  · exact List.nodup_cons.2 ⟨regular.new_not_stop, regular.once⟩
  · intro j inside none
    by_cases new : j = b.graph.arena.size
    · exact List.mem_cons.2 (.inl new)
    · exact List.mem_cons_of_mem _ (regular.anonymous_spliced known unsealed inside none new)

theorem advanced_graph : b.advanced.graph.Regular := by
  -- The block to be numbered is the new one, which no block of the old graph is.
  have large := (regular.spliced_graph known unsealed).body_iff.1
    (regular.new_spliced known unsealed)
  have number := Graph.number?_spliced (k := b.fallthrough) (current_lt known) b.graph.arena.size
  apply (regular.spliced_graph known unsealed).numbered large.2
  refine number.trans ?_
  simp [Graph.number?, Graph.core?_of_size_le]

theorem body_advanced (body : b.spliced.graph.Body h) : b.advanced.graph.Body h := by
  apply (regular.spliced_graph known unsealed).body_mono
    (regular.advanced_graph known unsealed).toWired _ body
  simp [advanced]

theorem anonymous_advanced (body : b.advanced.graph.Body h)
    (none : b.advanced.graph.number? h = none) : h ∈ b.stops := by
  have large := (regular.spliced_graph known unsealed).body_iff.1
    (regular.new_spliced known unsealed)
  simp only [advanced] at none
  -- The new block has got a number, so a block without one is older.
  rw [Graph.number?_numbered large.2] at none
  split at none
  · cases none
  · next old =>
    apply regular.anonymous_spliced known unsealed _ none (Ne.symm old)
    have inside := (regular.advanced_graph known unsealed).body_iff.1 body
    simp only [advanced, Graph.size_numbered] at inside
    exact (regular.spliced_graph known unsealed).body_iff.2 inside

theorem advanced : b.advanced.Regular := by
  have new := regular.body_advanced known unsealed (regular.new_spliced known unsealed)
  have old : ∀ j, b.graph.Body j → b.advanced.graph.Body j := fun j body =>
    regular.body_advanced known unsealed (regular.body_spliced known unsealed body)
  have stops : b.advanced.stops = b.stops := by rw [Builder.stops, scopes_advanced, Builder.stops]
  constructor
  · exact regular.advanced_graph known unsealed
  · rwa [current_advanced]
  · intro t member
    rw [scopes_advanced] at member
    exact old _ (regular.starts t member)
  · intro t member
    rw [scopes_advanced] at member
    exact old _ (regular.stops t member)
  · rw [stops]
    exact regular.once
  · intro j body none
    rw [stops]
    exact regular.anonymous_advanced known unsealed body none

theorem openedLoop :
    ({ graph := b.advanced.graph
       current := b.graph.arena.size
       scopes := ⟨b.graph.arena.size, b.graph.arena.size⟩ :: b.scopes } : Builder).Regular := by
  have new := regular.body_advanced known unsealed (regular.new_spliced known unsealed)
  have old := regular.advanced known unsealed
  constructor
  · exact old.graph
  · exact new
  · intro t member
    obtain rfl | member := List.mem_cons.1 member
    · exact new
    · exact old.starts t (scopes_advanced.symm ▸ member)
  · intro t member
    obtain rfl | member := List.mem_cons.1 member
    · exact new
    · exact old.stops t (scopes_advanced.symm ▸ member)
  · exact List.nodup_cons.2 ⟨regular.new_not_stop, regular.once⟩
  · intro j inside none
    exact List.mem_cons_of_mem _ (regular.anonymous_advanced known unsealed inside none)

end Spliced

end Regular

theorem Step.regular (step : b.Step b') (regular : b.Regular) : b'.Regular := by
  cases step with
  | idle => exact regular
  | noted quiet seals => exact regular.noted quiet seals
  | advanced known unsealed => exact regular.advanced known unsealed
  | openedLoop known unsealed => exact regular.openedLoop known unsealed
  | openedBranch known unsealed => exact regular.openedBranch known unsealed
  | rewound scopes => exact regular.rewound scopes
  | closed scopes known => exact regular.closed scopes known
  | sealed known => exact regular.sealed known

theorem Step.retains (step : b.Step b') (regular : b.Regular) : b.graph.Retains b'.graph := by
  cases step with
  | idle => exact .refl _
  | noted quiet seals keeps => exact Graph.retains_revise quiet seals keeps
  | advanced known unsealed =>
    exact (Graph.retains_spliced known unsealed).trans Graph.retains_numbered
  | openedLoop known unsealed =>
    exact (Graph.retains_spliced known unsealed).trans Graph.retains_numbered
  | openedBranch known unsealed => exact Graph.retains_spliced known unsealed
  | rewound scopes => exact .refl _
  | closed scopes known =>
    dsimp only
    split
    · exact Graph.retains_numbered
    · exact .refl _
  | sealed known => exact regular.graph.retains_sealing known

/-! ## All calls -/

theorem after_cons (call : Call) (calls : List Call) :
    b.after (call :: calls) = (call.after b).after calls := rfl

theorem after_append (calls more : List Call) :
    b.after (calls ++ more) = (b.after calls).after more :=
  List.foldl_append

/-- What one call keeps is kept by a list of them. -/
theorem Regular.after (regular : b.Regular) (calls : List Call) :
    (b.after calls).Regular ∧ b.graph.Retains (b.after calls).graph := by
  -- The first call is made first, so the rest starts from another builder.
  induction calls generalizing b with
  | nil => exact ⟨regular, .refl _⟩
  | cons call calls ih =>
    have step := regular.step call
    obtain ⟨regular', retains⟩ := ih (step.regular regular)
    rw [after_cons]
    exact ⟨regular', (step.retains regular).trans retains⟩

section Signature

variable (name : String) (returnType parameters : List String)

/-- None of the first blocks is sealed, and all but the exit lead on. -/
theorem core_ofSignature (known : (ofSignature name returnType parameters).graph.core? h = some x) :
    x.sealed = false ∧ (h ≠ Graph.exit → ∃ v, v ∈ x.successors) := by
  obtain _ | _ | _ | h := h
  · cases known
    exact ⟨rfl, fun _ => ⟨_, List.mem_singleton_self _⟩⟩
  · cases known
    exact ⟨rfl, fun other => absurd rfl other⟩
  · cases known
    exact ⟨rfl, fun _ => ⟨_, List.mem_singleton_self _⟩⟩
  · cases known

theorem regular_ofSignature : (ofSignature name returnType parameters).Regular where
  graph := {
    toWired := (sound_ofSignature name returnType parameters).graph.wired
    exit_lt := show 1 < 3 by decide
    stops := fun v edge => by simp [edge_ofSignature, Graph.entry, Graph.exit] at edge
    leads := fun h x known => (core_ofSignature name returnType parameters known).2
    closes := fun h x known full => by
      cases (core_ofSignature name returnType parameters known).1.symm.trans full
    apart := fun h edge => by
      simp [edge_ofSignature, Graph.entry, Graph.exit] at edge
      omega }
  current := ⟨_, rfl, rfl⟩
  starts := by simp [ofSignature]
  stops := by simp [ofSignature]
  once := List.nodup_nil
  anonymous h inside none := by
    have sound := sound_ofSignature name returnType parameters
    obtain ⟨high, lt⟩ := sound.graph.wired.body_iff.1 inside
    exact List.mem_map.2 (sound.anonymous h high lt none)

end Signature

/-- A block without a number that is no end of the function is the end of an open scope. -/
theorem Regular.unnumbered (regular : b.Regular) (found : b.graph.block? h = some x)
    (body : x.kind = .body) (none : x.id = none) : h ∈ b.stops := by
  apply regular.anonymous h ⟨x, found, body⟩
  simp [Graph.number?, Graph.core?, found, Block.core, none]

theorem starts_eq_nil : b.starts = [] ↔ b.scopes = [] := List.map_eq_nil_iff

theorem stops_eq_nil : b.stops = [] ↔ b.scopes = [] := List.map_eq_nil_iff

/-- Going back needs an open scope. -/
theorem rewind_fails_iff : (∃ fault b', rewind b = .error fault b') ↔ b.starts = [] := by
  rw [starts_eq_nil]
  cases scopes : b.scopes with
  | nil => simp [rewind_of_closed scopes]
  | cons s rest => simp [rewind_run scopes]

/-- Closing needs an open scope. -/
theorem Regular.close_fails_iff (regular : b.Regular) :
    (∃ fault b', close b = .error fault b') ↔ b.stops = [] := by
  rw [stops_eq_nil]
  cases scopes : b.scopes with
  | nil => simp [close_of_closed scopes]
  | cons s rest =>
    obtain ⟨x, known, -⟩ := regular.stop_core (s := s) (by simp [scopes])
    simp [close_run scopes known]

/-- Handing over needs that no scope is open. -/
theorem finish_fails_iff : (∃ fault b', finish b = .error fault b') ↔ b.stops ≠ [] := by
  rw [Ne, stops_eq_nil, ← List.length_eq_zero_iff, ← depth]
  by_cases closed : b.depth = 0
  · simp [finish_run closed, closed]
  · simp [finish_of_open closed, closed]

theorem Regular.consistent (regular : b.Regular) : b.Consistent where
  mirrored := regular.graph.mirrored
  entry := by
    have lt : Graph.entry < b.graph.arena.size := Nat.lt_trans Nat.zero_lt_one regular.graph.exit_lt
    obtain ⟨x, found⟩ := Option.isSome_iff_exists.1 (Graph.block?_isSome_iff.2 lt)
    refine ⟨x, found, ?_, OrderedSet.eq_empty fun u member => ?_⟩
    · exact regular.graph.kinds _ x.core (Graph.core?_eq_some.2 ⟨x, found, rfl⟩)
    · exact regular.graph.source u ((regular.graph.mirrored _ _).2 ⟨x, found, member⟩)
  exit := by
    have lt := regular.graph.exit_lt
    obtain ⟨x, found⟩ := Option.isSome_iff_exists.1 (Graph.block?_isSome_iff.2 lt)
    refine ⟨x, found, ?_, OrderedSet.eq_empty fun v member => ?_⟩
    · exact regular.graph.kinds _ x.core (Graph.core?_eq_some.2 ⟨x, found, rfl⟩)
    · exact regular.graph.stops v ⟨x, found, member⟩
  leads h x found other := by
    intro empty
    obtain ⟨v, member⟩ := regular.graph.leads h x.core (Graph.core?_eq_some.2 ⟨x, found, rfl⟩) other
    have member : v ∈ x.successors := member
    rw [empty] at member
    exact OrderedSet.not_mem_empty v member
  closes h x found full := regular.graph.closes h x.core (Graph.core?_eq_some.2 ⟨x, found, rfl⟩) full
  numbers i h := by
    rw [regular.graph.numbers, Graph.number?, Graph.core?]
    cases b.graph.block? h <;> simp [Block.core]
  nodup := by
    refine List.pairwise_iff_getElem.2 fun i j hi hj less same => ?_
    have := regular.graph.number_unique (List.getElem?_eq_getElem hi)
      (same ▸ List.getElem?_eq_getElem hj)
    omega
  balanced := (List.length_map _).trans (List.length_map _).symm
  rewinds := rewind_fails_iff
  shuts := regular.close_fails_iff
  finishes := finish_fails_iff
  anonymous h := by
    constructor
    · rintro ⟨x, found, body, none⟩
      exact ⟨regular.unnumbered found body none, x, found, none⟩
    · rintro ⟨member, x, found, none⟩
      obtain ⟨s, inside, rfl⟩ := List.mem_map.1 member
      obtain ⟨y, found', body⟩ := regular.stops s inside
      cases found.symm.trans found'
      exact ⟨x, found, body, none⟩
  once h x found body none := by
    exact List.nodup_iff_count_eq_one.1 regular.once h (regular.unnumbered found body none)
  complete closed h inside := by
    -- A block without a number would be the end of a scope, and none is open.
    have empty : b.stops = [] := stops_eq_nil.2 (List.length_eq_zero_iff.1 closed)
    cases number : b.graph.number? h with
    | none =>
      have member := regular.anonymous h inside number
      rw [empty] at member
      cases member
    | some i => exact List.mem_of_getElem? ((regular.graph.numbers i h).2 number)

/-- However a builder is used, it is consistent after every call, and a block that is sealed keeps
its text, its seal and its successors from then on. -/
theorem calls_consistent (name : String) (returnType parameters : List String)
    (calls : List Call) :
    ((ofSignature name returnType parameters).after calls).Consistent ∧
      ∀ more, ((ofSignature name returnType parameters).after calls).graph.Retains
        ((ofSignature name returnType parameters).after (calls ++ more)).graph := by
  have start := regular_ofSignature name returnType parameters
  have regular := (start.after calls).1
  refine ⟨regular.consistent, fun more => ?_⟩
  rw [after_append]
  exact (regular.after more).2

end Builder

end Flowgraph
