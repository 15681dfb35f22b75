import Flowgraph.Proofs.Protocol

/-!
# Scopes that are closed again

A scope that is opened together with what is done inside is closed again however the inside ends.
What is done inside may throw at any point, may open such scopes in turn, some of which are refused,
and may leave the builder at any block.  Closing takes away the one scope that was opened, and it
cannot fail, so the fault of the inside is the one that comes out.
-/

namespace Flowgraph

open Edit Builder

/-! ## What is done inside a scope -/

/-- A call that neither opens nor closes a scope. -/
def Call.Plain : Call → Prop
  | openLoop | openBranch | close => False
  | append _ | advance | rewind | sealToExit | recordThen _ | recordElse _ | recordLoopExit _
  | finish => True

/-- Make the call for its answer, which is `true` if it has none. -/
def Call.ask : Call → Build Bool
  | append text => Builder.append text
  | advance => Builder.advance
  | openLoop => Builder.openLoop
  | openBranch => Builder.openBranch
  | close => Builder.close
  | call => do
    call.perform
    return true

/-- The kinds of scopes that can be opened together with what is done inside. -/
inductive ScopeKind where
  | branch
  | loop
  deriving DecidableEq, Repr

namespace ScopeKind

/-- Open the scope; `false` if it is refused. -/
def enter : ScopeKind → Build Bool
  | branch => openBranch
  | loop => openLoop

/-- Open the scope, run what is done inside, and close the scope. -/
def within : ScopeKind → Build Unit → Build Bool
  | branch, body => withBranch body
  | loop, body => withLoop body

end ScopeKind

/-- What is done inside a scope: plain calls and scopes of its own, in an order that may depend on
their answers and on anything that can be seen of the builder, until it is done or throws. -/
inductive Routine where
  | done
  | throw (fault : Fault)
  | look (next : Builder → Routine)
  | call (call : Call) (plain : call.Plain) (next : Bool → Routine)
  | within (kind : ScopeKind) (body : Routine) (next : Bool → Routine)

namespace Routine

/-- Do what the routine says. -/
def run : Routine → Build Unit
  | done => return
  | throw fault => MonadExcept.throw fault
  | look next => do (next (← get)).run
  | call c _ next => do (next (← c.ask)).run
  | within kind body next => do (next (← kind.within body.run)).run

/-- Done from `b`, the routine throws the fault at some depth, itself or by one of its calls. -/
def Throws : Routine → Builder → Fault → Prop
  | done, _, _ => False
  | throw fault, _, thrown => thrown = fault
  | look next, b, thrown => (next b).Throws b thrown
  | call c _ next, b, thrown =>
    (∃ b', c.ask b = .error thrown b') ∨
      ∃ answer b', c.ask b = .ok answer b' ∧ (next answer).Throws b' thrown
  | within kind body next, b, thrown =>
    (∃ b', kind.enter b = .ok true b' ∧ body.Throws b' thrown) ∨
      ∃ answer b', kind.within body.run b = .ok answer b' ∧ (next answer).Throws b' thrown

end Routine

/-! ## Scopes stay balanced -/

namespace Builder

variable {b b' b'' b₁ : Builder} {x : Block} {call : Call} {s : Scope} {rest : List Scope}

/-- From `b` to `b'` all scopes that were opened have been closed, and no others. -/
structure Balances (b b' : Builder) : Prop where
  regular : b'.Regular
  scopes : b'.scopes = b.scopes

namespace Balances

theorem refl (regular : b.Regular) : b.Balances b := ⟨regular, rfl⟩

theorem trans (first : b.Balances b') (second : b'.Balances b'') : b.Balances b'' :=
  ⟨second.regular, second.scopes.trans first.scopes⟩

/-- An edit, and another one behind it if the first one ended well. -/
theorem bind {α β : Type} {edit : Build α} {next : α → Build β} (first : b.Balances (final edit b))
    (second : ∀ a b', edit b = .ok a b' → b'.Regular → b'.Balances (final (next a) b')) :
    b.Balances (final (edit >>= next) b) := by
  cases ran : edit b with
  | ok a b₁ =>
    rw [final_of_ok ran] at first
    rw [final_bind_ok ran]
    exact first.trans (second a b₁ ran first.regular)
  | error fault b₁ =>
    rw [final_of_error ran] at first
    rwa [final_bind_error ran]

end Balances

theorem final_ask (call : Call) (b : Builder) : final call.ask b = call.after b := by
  have answered : ∀ c : Call, final (do c.perform; return true : Build Bool) b = c.after b := by
    intro c
    cases ran : c.perform b with
    | ok _ b₁ => rw [final_bind_ok ran, Call.after, final_of_ok ran]; rfl
    | error fault b₁ => rw [final_bind_error ran, Call.after, final_of_error ran]
  cases call with
  | append text => exact (final_discard _ b).symm
  | advance => exact (final_discard _ b).symm
  | openLoop => exact (final_discard _ b).symm
  | openBranch => exact (final_discard _ b).symm
  | close => exact (final_discard _ b).symm
  | rewind | sealToExit | recordThen | recordElse | recordLoopExit | finish => exact answered _

theorem scopes_of_ok (run : call.perform b = .ok () b') (same : b'.scopes = b.scopes) :
    (call.after b).scopes = b.scopes := by
  rwa [Call.after, final_of_ok run]

theorem scopes_of_error {fault : Fault} (run : call.perform b = .error fault b) :
    (call.after b).scopes = b.scopes := by
  rw [Call.after, final_of_error run]

theorem scopes_record {h : Nat} {f : Block → Block}
    (perform : call.perform b = onGraph (Graph.change h f) b) : (call.after b).scopes = b.scopes := by
  obtain same | same := record_after perform <;> rw [same]

theorem Regular.scopes_plain (regular : b.Regular) (plain : call.Plain) :
    (call.after b).scopes = b.scopes := by
  obtain ⟨x, known, -⟩ := regular.current_core
  cases call with
  | append text =>
    cases full : x.sealed with
    | true => exact scopes_of_ok (discard_ok (append_of_sealed known full text)) rfl
    | false => exact scopes_of_ok (discard_ok (append_run known full text)) rfl
  | advance =>
    cases full : x.sealed with
    | true => exact scopes_of_ok (discard_ok (advance_of_sealed known full)) rfl
    | false =>
      have run := advance_run known full regular.fallthrough_lt
      exact scopes_of_ok (discard_ok run) scopes_advanced
  | rewind =>
    cases scopes : b.scopes with
    | nil => rw [← scopes]; exact scopes_of_error (rewind_of_closed scopes)
    | cons s rest => rw [← scopes]; exact scopes_of_ok (rewind_run scopes) rfl
  | sealToExit =>
    have targets : ∀ v ∈ x.successors, v < b.graph.arena.size := by
      intro v member
      exact regular.graph.edge_lt (Graph.edge_iff_core.2 ⟨x, known, member⟩)
    exact scopes_of_ok (sealToExit_cuts known targets regular.graph.exit_lt) rfl
  | recordThen branching => exact scopes_record (f := fun x => { x with thenTarget := _ }) rfl
  | recordElse branching => exact scopes_record (f := fun x => { x with elseTarget := _ }) rfl
  | recordLoopExit header => exact scopes_record (f := fun x => { x with loopExit := _ }) rfl
  | finish =>
    by_cases closed : b.depth = 0
    · exact scopes_of_ok (discard_ok (finish_run closed)) rfl
    · exact scopes_of_error (discard_error (finish_of_open closed))
  | openLoop | openBranch | close => cases plain

theorem Regular.balances_ask (regular : b.Regular) (plain : call.Plain) :
    b.Balances (final call.ask b) := by
  rw [final_ask]
  exact ⟨(regular.step call).regular regular, regular.scopes_plain plain⟩

/-- A scope is refused by a sealed block and opened at any other. -/
theorem Regular.enter_cases (regular : b.Regular) (kind : ScopeKind) :
    (kind.enter b = .ok false b ∧ ∀ body, kind.within body b = .ok false b) ∨
      ∃ b₁ s, kind.enter b = .ok true b₁ ∧ b₁.Regular ∧ b₁.scopes = s :: b.scopes := by
  obtain ⟨x, known, -⟩ := regular.current_core
  cases full : x.sealed with
  | true =>
    cases kind with
    | branch => exact .inl ⟨openBranch_of_sealed known full, withBranch_of_sealed known full⟩
    | loop => exact .inl ⟨openLoop_of_sealed known full, withLoop_of_sealed known full⟩
  | false =>
    cases kind with
    | branch =>
      exact .inr ⟨_, _, openBranch_run known full regular.fallthrough_lt,
        regular.openedBranch known full, rfl⟩
    | loop =>
      exact .inr ⟨_, _, openLoop_run known full regular.fallthrough_lt,
        regular.openedLoop known full, rfl⟩

theorem Regular.close_goes (regular : b.Regular) (scopes : b.scopes = s :: rest) :
    ∃ answer b', close b = .ok answer b' ∧ b'.Regular ∧ b'.scopes = rest := by
  obtain ⟨x, known, -⟩ := regular.stop_core (s := s) (by simp [scopes])
  exact ⟨_, _, close_run scopes known, regular.closed scopes known, rfl⟩

section Within

variable {kind : ScopeKind} {body : Build Unit} (opened : kind.enter b = .ok true b₁)

include opened

theorem within_closed {answer : Bool} (shut : closing body b₁ = .ok answer b') :
    ∃ answer', kind.within body b = .ok answer' b' := by
  cases kind with
  | branch =>
    have opened : openBranch b = .ok true b₁ := opened
    refine ⟨true, ?_⟩
    rw [ScopeKind.within, withBranch, bind_ok opened, if_pos rfl, bind_ok shut, pure_run]
  | loop =>
    have opened : openLoop b = .ok true b₁ := opened
    refine ⟨answer, ?_⟩
    rw [ScopeKind.within, withLoop, bind_ok opened, if_pos rfl, shut]

theorem within_thrown {fault : Fault} (shut : closing body b₁ = .error fault b') :
    kind.within body b = .error fault b' := by
  cases kind with
  | branch =>
    have opened : openBranch b = .ok true b₁ := opened
    rw [ScopeKind.within, withBranch, bind_ok opened, if_pos rfl, bind_error shut]
  | loop =>
    have opened : openLoop b = .ok true b₁ := opened
    rw [ScopeKind.within, withLoop, bind_ok opened, if_pos rfl, shut]

/-- However the inside ended, its scope is closed, and what the inside threw is thrown on. -/
theorem Balances.leaves (inside : b₁.Balances (final body b₁)) (scopes : b₁.scopes = s :: b.scopes) :
    ∃ b', b.Balances b' ∧
      ((∃ b₂, body b₁ = .ok () b₂ ∧ ∃ answer, kind.within body b = .ok answer b') ∨
        ∃ fault b₂, body b₁ = .error fault b₂ ∧ kind.within body b = .error fault b') := by
  obtain ⟨answer, b', closed, regular, same⟩ :=
    inside.regular.close_goes (inside.scopes.trans scopes)
  refine ⟨b', ⟨regular, same⟩, ?_⟩
  -- The scope is closed wherever the inside ended, and closing does not fail, so no fault is lost.
  cases ran : body b₁ with
  | ok _ b₂ =>
    rw [final_of_ok ran] at closed
    exact .inl ⟨b₂, rfl, within_closed opened ((closing_run ran).trans closed)⟩
  | error fault b₂ =>
    rw [final_of_error ran] at closed
    exact .inr ⟨fault, b₂, rfl, within_thrown opened (by simp only [closing, ran, closed])⟩

end Within

/-- Whatever a scope contains, it leaves the scopes balanced if its inside does. -/
theorem Regular.balances_within (regular : b.Regular) (kind : ScopeKind) {body : Build Unit}
    (inside : ∀ b₁ : Builder, b₁.Regular → b₁.Balances (final body b₁)) :
    b.Balances (final (kind.within body) b) := by
  obtain ⟨-, refused⟩ | ⟨b₁, s, opened, regular₁, scopes₁⟩ := regular.enter_cases kind
  · rw [final_of_ok (refused body)]
    exact .refl regular
  · obtain ⟨b', balances, ⟨-, -, answer, run⟩ | ⟨fault, -, -, run⟩⟩ :=
      (inside b₁ regular₁).leaves opened scopes₁
    · rwa [final_of_ok run]
    · rwa [final_of_error run]

theorem Regular.entered (regular : b.Regular) {kind : ScopeKind}
    (opened : kind.enter b = .ok true b₁) :
    b₁.Regular ∧ ∃ s, b₁.scopes = s :: b.scopes := by
  obtain ⟨refused, -⟩ | ⟨b₂, s, opened', regular₂, scopes₂⟩ := regular.enter_cases kind
  · cases refused.symm.trans opened
  · cases opened'.symm.trans opened
    exact ⟨regular₂, s, scopes₂⟩

/-- A scope fails with what its inside throws, and with nothing else. -/
theorem Regular.within_fails_iff (regular : b.Regular) (kind : ScopeKind) {body : Build Unit}
    (inside : ∀ b₁ : Builder, b₁.Regular → b₁.Balances (final body b₁)) (fault : Fault) :
    (∃ b', kind.within body b = .error fault b') ↔
      ∃ b₁, kind.enter b = .ok true b₁ ∧ ∃ b₂, body b₁ = .error fault b₂ := by
  constructor
  · rintro ⟨b', failed⟩
    obtain ⟨-, refused⟩ | ⟨b₁, s, opened, regular₁, scopes₁⟩ := regular.enter_cases kind
    · cases (refused body).symm.trans failed
    · obtain ⟨b₃, -, ⟨-, -, answer, run⟩ | ⟨thrown, b₂, threw, run⟩⟩ :=
        (inside b₁ regular₁).leaves opened scopes₁
      · cases run.symm.trans failed
      · cases run.symm.trans failed
        exact ⟨b₁, opened, b₂, threw⟩
  · rintro ⟨b₁, opened, b₂, threw⟩
    obtain ⟨regular₁, s, scopes₁⟩ := regular.entered opened
    obtain ⟨b₃, -, ⟨_, done, -⟩ | ⟨thrown, _, threw', run⟩⟩ :=
      (inside b₁ regular₁).leaves opened scopes₁
    · cases done.symm.trans threw
    · cases threw'.symm.trans threw
      exact ⟨b₃, run⟩

end Builder

namespace Routine

variable {b : Builder}

/-- A routine closes the scopes that it opens, also if it throws. -/
theorem balances (r : Routine) (regular : b.Regular) : b.Balances (final r.run b) := by
  induction r generalizing b with
  | done => exact .refl regular
  | throw fault => exact .refl regular
  | look next ih => exact ih b regular
  | call c plain next ih =>
    exact (regular.balances_ask plain).bind fun answer b' _ regular' => ih answer regular'
  | within kind body next inside ih =>
    have first := regular.balances_within kind fun b₁ regular₁ => inside regular₁
    exact first.bind fun answer b' _ regular' => ih answer regular'

/-- An edit with another one behind it fails if one of them does. -/
theorem bind_fails_iff {α β : Type} {edit : Build α} {next : α → Build β} {fault : Fault} :
    (∃ b', (edit >>= next) b = .error fault b') ↔
      (∃ b', edit b = .error fault b') ∨
        ∃ a b₁, edit b = .ok a b₁ ∧ ∃ b', next a b₁ = .error fault b' := by
  cases ran : edit b with
  | ok a b₁ => simp [bind_ok ran]
  | error thrown b₁ => simp [bind_error ran]

/-- What comes out of a routine was thrown inside, and what was thrown inside comes out. -/
theorem fails_iff_throws (r : Routine) (regular : b.Regular) (fault : Fault) :
    (∃ b', r.run b = .error fault b') ↔ r.Throws b fault := by
  induction r generalizing b with
  | done =>
    constructor
    · rintro ⟨b', failed⟩
      cases failed
    · exact False.elim
  | throw thrown =>
    constructor
    · rintro ⟨b', failed⟩
      cases failed
      rfl
    · rintro rfl
      exact ⟨b, rfl⟩
  | look next ih => exact ih b regular
  | call c plain next ih =>
    refine bind_fails_iff.trans (or_congr_right ?_)
    refine exists_congr fun answer => exists_congr fun b' => and_congr_right fun ran => ?_
    have balances := regular.balances_ask plain
    rw [final_of_ok ran] at balances
    exact ih answer balances.regular
  | within kind body next inside ih =>
    -- What is behind the scope is reached only if nothing was thrown in it.
    refine bind_fails_iff.trans (or_congr ?_ ?_)
    · refine (regular.within_fails_iff kind (fun b₁ => body.balances) fault).trans ?_
      exact exists_congr fun b₁ => and_congr_right fun opened => inside (regular.entered opened).1
    · refine exists_congr fun answer => exists_congr fun b' => and_congr_right fun ran => ?_
      have balances := regular.balances_within kind fun b₁ => body.balances
      rw [final_of_ok ran] at balances
      exact ih answer balances.regular

end Routine

/-! ## From outside -/

/-- What a scope that was opened together with its inside leaves behind: the scopes are the old ones,
every new block has a number, and it throws what is thrown inside. -/
structure Builder.Restored (b : Builder) (kind : ScopeKind) (body : Routine) : Prop where
  starts : (final (kind.within body.run) b).starts = b.starts
  stops : (final (kind.within body.run) b).stops = b.stops
  numbered : ∀ h x, b.graph.arena.size ≤ h →
    (final (kind.within body.run) b).graph.block? h = some x → x.kind = .body → ∃ i, x.id = some i
  throws : ∀ fault, (∃ b', kind.within body.run b = .error fault b') ↔
    ∃ b₁, kind.enter b = .ok true b₁ ∧ body.Throws b₁ fault

namespace Builder

theorem Regular.restored {b : Builder} (regular : b.Regular) (kind : ScopeKind) (body : Routine) :
    b.Restored kind body := by
  have balances := regular.balances_within kind fun b₁ => body.balances
  have stops : (final (kind.within body.run) b).stops = b.stops := by
    rw [Builder.stops, balances.scopes, Builder.stops]
  constructor
  · rw [Builder.starts, balances.scopes, Builder.starts]
  · exact stops
  · intro h x new found inside
    cases number : x.id with
    | some i => exact ⟨i, rfl⟩
    | none =>
      -- A block without a number is the end of an open scope, and these are all old.
      have member := balances.regular.unnumbered found inside number
      rw [stops] at member
      obtain ⟨s, open_, rfl⟩ := List.mem_map.1 member
      have old := (regular.graph.body_iff.1 (regular.stops s open_)).2
      omega
  · intro fault
    refine (regular.within_fails_iff kind (fun b₁ => body.balances) fault).trans ?_
    exact exists_congr fun b₁ => and_congr_right fun opened =>
      body.fails_iff_throws (regular.entered opened).1 fault

/-- However a builder was used before, a scope that is opened together with its inside is closed
again, whatever happens inside. -/
theorem within_restores (name : String) (returnType parameters : List String) (calls : List Call)
    (kind : ScopeKind) (body : Routine) :
    ((ofSignature name returnType parameters).after calls).Restored kind body :=
  (((regular_ofSignature name returnType parameters).after calls).1).restored kind body

end Builder

end Flowgraph
