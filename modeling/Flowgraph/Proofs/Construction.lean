import Flowgraph.Proofs.Growth

/-!
# Where a builder stands

`Builder.At` says where a builder stands.  It stands at a spot with a fragment list if its
current block is open and leads to the end of the innermost scope, and at no spot if a return
has sealed its current block.

Every call at a known block ends well, keeps the builder `Sound`, and changes no core but that
of the block at which it is made: one lemma for each call says so, and what that block holds
afterwards.
-/

namespace Flowgraph

open Edit

namespace Graph

variable {g g' g'' : Graph} {c h k i : Nat} {l l' : List Nat}

/-- Growing from `g` to `g'` keeps the core of every block but some. -/
structure Keeps (except : List Nat) (g g' : Graph) : Prop where
  table : g.table <+: g'.table
  size : g.arena.size ≤ g'.arena.size
  core : ∀ h, h < g.arena.size → h ∉ except → g'.core? h = g.core? h
  heading : g'.heading = g.heading

namespace Keeps

theorem refl (g : Graph) : Keeps l g g :=
  ⟨List.prefix_rfl, Nat.le_refl _, fun _ _ _ => rfl, rfl⟩

/-- What the second part of a growth changes is new or was changed by the first. -/
theorem trans (first : Keeps l g g') (second : Keeps l' g' g'')
    (inside : ∀ h ∈ l', h < g.arena.size → h ∈ l) : Keeps l g g'' where
  table := first.table.trans second.table
  size := Nat.le_trans first.size second.size
  core h known other := by
    have size := first.size
    rw [second.core h (by omega) fun member => other (inside h member known),
      first.core h known other]
  heading := second.heading.trans first.heading

theorem weaken (keeps : Keeps l g g') (inside : ∀ h ∈ l, h ∈ l') : Keeps l' g g' :=
  ⟨keeps.table, keeps.size, fun h known other => keeps.core h known fun member =>
    other (inside h member), keeps.heading⟩

theorem lookup (keeps : Keeps l g g') {x : Block} (known : g.core? h = some x)
    (other : h ∉ l) : g'.core? h = some x :=
  (keeps.core h (core?_isSome_iff.1 (by simp [known])) other).trans known

theorem named (keeps : Keeps l g g') (named : g.table[i]? = some h) : g'.table[i]? = some h :=
  Place.mono (p := some i) named keeps.table

end Keeps

theorem keeps_revise {f : Block → Block} (core : ∀ x, (f x).core = f x.core) :
    Keeps [h] g (g.revise h f) where
  table := List.prefix_rfl
  size := by simp
  core j _ other := by
    rw [core?_revise core, if_neg fun eq => other (by simp [eq])]
  heading := rfl

theorem keeps_spliced (hc : c < g.arena.size) : Keeps [c] g (g.spliced c k) where
  table := by simp
  size := by simp
  core j known other := by
    rw [core?_spliced hc, if_neg (by omega), if_neg fun eq => other (by simp [eq])]
  heading := by simp [heading, spliced, withEdge, withoutEdge, withBlock, revise]

theorem keeps_numbered : Keeps [h] g (g.numbered h) where
  table := by simp
  size := by simp
  core j _ other := by
    rw [core?_numbered, if_neg fun eq => other (by simp [eq])]
  heading := rfl

theorem keeps_returned : Keeps [c] g (g.returned c k) where
  table := by simp
  size := by simp
  core j _ other := by
    rw [core?_returned, if_neg fun eq => other (by simp [eq])]
  heading := by simp [heading, returned, withEdge, withoutEdge, revise]

end Graph

namespace Builder

open Flowgraph.Graph (Keeps)

variable {b b' : Builder} {x : Block} {c : Nat} {p : List String}

/-- What holds of a builder at any time, wherever it stands: the ends of its scopes are blocks
inside the function, and a block without a number is one of them. -/
structure Sound (b : Builder) : Prop where
  graph : b.graph.Sound
  scopes : ∀ s ∈ b.scopes, 2 ≤ s.stop ∧ s.stop < b.graph.arena.size
  anonymous : ∀ h, 2 ≤ h → h < b.graph.arena.size → b.graph.number? h = none →
    ∃ s ∈ b.scopes, s.stop = h

/-- The builder stands at a spot. -/
def At (b : Builder) : Spot → Prop
  | none => b.Stopped
  | some (c, p) => b.graph.core? b.current = some ((Ending.goes b.fallthrough).block (some c) p)

namespace Sound

variable (sound : b.Sound)

include sound

theorem fallthrough_lt : b.fallthrough < b.graph.arena.size := by
  unfold fallthrough
  split
  · exact sound.graph.exit_lt
  · exact (sound.scopes _ (by simp [*])).2

theorem fallthrough_ne_entry : b.fallthrough ≠ Graph.entry := by
  unfold fallthrough
  split
  · decide
  · rename_i scope rest scopes
    have := (sound.scopes scope (by simp [scopes])).1
    show scope.stop ≠ 0
    omega

theorem revise {h : Nat} {f : Block → Block} (inside : 2 ≤ h) (quiet : Block.Quiet f) :
    ({ b with graph := b.graph.revise h f } : Builder).Sound where
  graph := sound.graph.revise inside quiet
  scopes s member := by simpa using sound.scopes s member
  anonymous j high known none := by
    refine sound.anonymous j high (by simpa using known) ?_
    rw [← none]
    exact (Graph.number?_revise quiet j).symm

theorem appended (inside : 2 ≤ b.current) (fragments : List String) :
    (b.appended fragments).Sound :=
  sound.revise inside ⟨fun _ => rfl, fun _ => rfl, fun _ => rfl, fun _ => rfl, fun _ => rfl⟩

theorem spliced_graph (known : b.graph.core? b.current = some x) (body : x.kind = .body) :
    b.spliced.graph.Sound :=
  sound.graph.spliced (sound.graph.inside known body) (current_lt known) sound.fallthrough_lt
    sound.fallthrough_ne_entry

/-- After a block is spliced in, it is the only one that may lack a number without being the
end of a scope. -/
theorem anonymous_spliced (known : b.graph.core? b.current = some x) {h : Nat} (high : 2 ≤ h)
    (lt : h < b.spliced.graph.arena.size) (none : b.spliced.graph.number? h = none)
    (old : h ≠ b.graph.arena.size) : ∃ s ∈ b.scopes, s.stop = h := by
  have size : b.spliced.graph.arena.size = b.graph.arena.size + 1 := by simp [spliced]
  refine sound.anonymous h high (by omega) ?_
  rw [← none]
  exact (Graph.number?_spliced (current_lt known) h).symm

theorem openedBranch (known : b.graph.core? b.current = some x) (body : x.kind = .body) :
    ({ graph := b.spliced.graph
       current := b.graph.arena.size
       scopes := ⟨b.current, b.graph.arena.size⟩ :: b.scopes } : Builder).Sound where
  graph := sound.spliced_graph known body
  scopes s member := by
    have large := current_lt known
    have inside := sound.graph.inside known body
    have size : b.spliced.graph.arena.size = b.graph.arena.size + 1 := by simp [spliced]
    obtain rfl | member := List.mem_cons.1 member
    · exact ⟨by simp; omega, by simp [size]⟩
    · have := sound.scopes s member
      exact ⟨this.1, by simp only [size]; omega⟩
  anonymous h high lt none := by
    by_cases new : h = b.graph.arena.size
    -- the new block is the end of the scope that was just opened
    · exact ⟨_, List.mem_cons_self, new.symm⟩
    · obtain ⟨s, member, stop⟩ := sound.anonymous_spliced known high lt none new
      exact ⟨s, List.mem_cons_of_mem _ member, stop⟩

theorem advanced (known : b.graph.core? b.current = some x) (body : x.kind = .body) :
    b.advanced.Sound := by
  have large := current_lt known
  have inside := sound.graph.inside known body
  have size : b.spliced.graph.arena.size = b.graph.arena.size + 1 := by simp [spliced]
  have fresh : b.spliced.graph.number? b.graph.arena.size = none := by
    simp [Graph.number?, spliced, Graph.core?_spliced large, Ending.block]
  refine ⟨(sound.spliced_graph known body).numbered (by omega) (by omega) fresh, ?_, ?_⟩
  · intro s member
    have := sound.scopes s (by simpa using member)
    exact ⟨this.1, by simp; omega⟩
  · intro h high lt none
    simp only [Builder.advanced, Graph.number?, Graph.core?_numbered] at none
    by_cases new : b.graph.arena.size = h
    · subst h
      rw [if_pos rfl, Option.bind_eq_none_iff] at none
      obtain ⟨y, found⟩ := Option.isSome_iff_exists.1 (Graph.core?_isSome_iff.2
        (show b.graph.arena.size < b.spliced.graph.arena.size by omega))
      simp [found] at none
    · rw [if_neg new] at none
      simpa using sound.anonymous_spliced known high (by simpa [size] using lt) none (Ne.symm new)

/-- Closing a scope gives its end a number, if it has none. -/
theorem closed {scope : Scope} {rest : List Scope} (scopes : b.scopes = scope :: rest)
    (known : b.graph.core? scope.stop = some x) :
    ({ graph := if x.id.isNone then b.graph.numbered scope.stop else b.graph
       current := scope.stop
       scopes := rest } : Builder).Sound := by
  obtain ⟨high, lt⟩ := sound.scopes scope (by simp [scopes])
  have number : b.graph.number? scope.stop = x.id := by simp [Graph.number?, known]
  refine ⟨?_, ?_, ?_⟩
  · cases id : x.id with
    | none => exact sound.graph.numbered high lt (number.trans id)
    | some i => exact sound.graph
  · intro s member
    have := sound.scopes s (by simp [scopes, member])
    cases x.id <;> simpa using this
  -- a block without a number is not the end just closed, so an outer scope ends there
  · intro h high lt unnamed
    have away : h ≠ scope.stop ∧ b.graph.number? h = none := by
      by_cases same : scope.stop = h
      · subst h
        cases id : x.id <;>
          simp [id, Graph.number?, Graph.core?_numbered, known] at unnamed
      · refine ⟨Ne.symm same, ?_⟩
        cases id : x.id <;>
          simpa [id, Graph.number?, Graph.core?_numbered, same] using unnamed
    have lt : h < b.graph.arena.size := by
      cases id : x.id <;> simpa [id] using lt
    obtain ⟨s, member, stop⟩ := sound.anonymous h high lt away.2
    rw [scopes] at member
    obtain rfl | member := List.mem_cons.1 member
    · exact absurd stop.symm away.1
    · exact ⟨s, member, stop⟩

end Sound

/-! ## The calls of a statement -/

section Calls

variable (sound : b.Sound)

include sound

theorem At.inside (at_ : b.At (some (c, p))) : 2 ≤ b.current :=
  sound.graph.inside at_ rfl

theorem At.named (at_ : b.At (some (c, p))) : b.graph.table[c]? = some b.current :=
  sound.graph.named at_ rfl

theorem appendAll_spec (known : b.graph.core? b.current = some x) (body : x.kind = .body)
    (unsealed : x.sealed = false) (fragments : List String) :
    ∃ b', appendAll fragments b = .ok () b' ∧ b'.Sound ∧
      b'.graph.core? b.current = some (x.addLines fragments) ∧
      b'.scopes = b.scopes ∧ b'.current = b.current ∧ b'.graph.table = b.graph.table ∧
      b'.graph.arena.size = b.graph.arena.size ∧ Keeps [b.current] b.graph b'.graph := by
  refine ⟨b.appended fragments, appendAll_run fragments known unsealed,
    sound.appended (sound.graph.inside known body) fragments, ?_, rfl, rfl, rfl,
    by simp [appended], Graph.keeps_revise fun _ => rfl⟩
  rw [core?_appended, if_pos rfl, known]
  rfl

theorem advance_spec (known : b.graph.core? b.current = some x) (body : x.kind = .body)
    (unsealed : x.sealed = false) :
    ∃ b', advance b = .ok true b' ∧ b'.Sound ∧ b'.At (some (b.graph.table.length, [])) ∧
      b'.scopes = b.scopes ∧ b'.current = b.graph.arena.size ∧
      b'.graph.table = b.graph.table ++ [b.graph.arena.size] ∧
      b'.graph.arena.size = b.graph.arena.size + 1 ∧ Keeps [b.current] b.graph b'.graph ∧
      b'.graph.core? b.current =
        some ((x.dropSuccessor b.fallthrough).addSuccessor b.graph.arena.size) := by
  have here := current_lt known
  have fallthrough : b.advanced.fallthrough = b.fallthrough := by simp [Builder.fallthrough]
  refine ⟨b.advanced, advance_run known unsealed sound.fallthrough_lt, sound.advanced known body,
    ?_, scopes_advanced, rfl, table_advanced, size_advanced, ⟨by simp, by simp, ?_, ?_⟩, ?_⟩
  -- the new block is open, and the scope that ends behind it is the old one
  · show b.advanced.graph.core? b.advanced.current = _
    rw [current_advanced, core?_advanced here, if_pos rfl, fallthrough]
  · intro h lt other
    rw [core?_advanced here, if_neg (by omega), if_neg fun eq => other (by simp [eq])]
  · exact Graph.keeps_numbered.heading.trans (Graph.keeps_spliced here).heading
  · rw [core?_advanced here, if_neg (by omega), if_pos rfl, known]
    rfl

theorem openLoop_spec (at_ : b.At (some (c, p))) :
    ∃ b', openLoop b = .ok true b' ∧ b'.Sound ∧
      b'.graph.core? b.graph.arena.size =
        some ((Ending.goes b.fallthrough).block (some b.graph.table.length) []) ∧
      b'.scopes = ⟨b.graph.arena.size, b.graph.arena.size⟩ :: b.scopes ∧
      b'.current = b.graph.arena.size ∧
      b'.graph.table = b.graph.table ++ [b.graph.arena.size] ∧
      b'.graph.arena.size = b.graph.arena.size + 1 ∧ Keeps [b.current] b.graph b'.graph ∧
      b'.graph.core? b.current =
        some ((Ending.goes b.graph.arena.size).block (some c) p) := by
  obtain ⟨b₁, run, sound₁, at₁, scopes, current, table, size, keeps, core⟩ :=
    advance_spec sound at_ rfl rfl
  have fallthrough : b₁.fallthrough = b.fallthrough := by simp [Builder.fallthrough, scopes]
  have opened : openLoop b = .ok true { b₁ with
      scopes := ⟨b.graph.arena.size, b.graph.arena.size⟩ :: b.scopes } := by
    rw [openLoop, bind_ok run, if_pos rfl, bind_ok (modify_run _ _), pure_run, current, scopes]
  refine ⟨_, opened, ⟨sound₁.graph, ?_, ?_⟩, ?_, rfl, current, table, size, keeps, ?_⟩
  · intro s member
    have high := at_.inside sound
    have here := current_lt at_
    obtain rfl | member := List.mem_cons.1 member
    · simp only [size]
      omega
    · exact sound₁.scopes s (scopes ▸ member)
  · intro h high lt unnamed
    obtain ⟨s, member, stop⟩ := sound₁.anonymous h high lt unnamed
    exact ⟨s, List.mem_cons_of_mem _ (scopes ▸ member), stop⟩
  · have core₁ : b₁.graph.core? b₁.current = _ := at₁
    rwa [current, fallthrough] at core₁
  · rw [core]
    simp [Ending.block, Ending.successors, Block.dropSuccessor, Block.addSuccessor]

theorem openBranch_spec (at_ : b.At (some (c, p))) :
    ∃ b', openBranch b = .ok true b' ∧ b'.Sound ∧
      b'.graph.core? b.graph.arena.size = some ((Ending.goes b.fallthrough).block none []) ∧
      b'.scopes = ⟨b.current, b.graph.arena.size⟩ :: b.scopes ∧
      b'.current = b.graph.arena.size ∧
      b'.graph.table = b.graph.table ∧
      b'.graph.arena.size = b.graph.arena.size + 1 ∧ Keeps [b.current] b.graph b'.graph ∧
      b'.graph.core? b.current =
        some ((Ending.goes b.graph.arena.size).block (some c) p) := by
  have known : b.graph.core? b.current = _ := at_
  have here := current_lt known
  refine ⟨_, openBranch_run known rfl sound.fallthrough_lt, sound.openedBranch known rfl,
    ?_, rfl, rfl, by simp [spliced], by simp [spliced], Graph.keeps_spliced here, ?_⟩
  · simp only [spliced, Graph.core?_spliced here, if_true]
  · have old : b.current ≠ b.graph.arena.size := by omega
    simp only [spliced, Graph.core?_spliced here, if_neg old, if_true, known, Option.map_some]
    simp [Ending.block, Ending.successors, Block.dropSuccessor, Block.addSuccessor]

theorem rewind_spec {scope : Scope} {rest : List Scope} (scopes : b.scopes = scope :: rest) :
    ∃ b', rewind b = .ok () b' ∧ b'.Sound ∧ b'.graph = b.graph ∧ b'.scopes = b.scopes ∧
      b'.current = scope.start :=
  ⟨_, rewind_run scopes, ⟨sound.graph, sound.scopes, sound.anonymous⟩, rfl, rfl, rfl⟩

/-- Closing a scope whose end has no number gives it the next one. -/
theorem close_branch_spec {scope : Scope} {rest : List Scope} (scopes : b.scopes = scope :: rest)
    (known : b.graph.core? scope.stop = some x) (anonymous : x.id = none) :
    ∃ b', close b = .ok (!x.sealed) b' ∧ b'.Sound ∧ b'.scopes = rest ∧ b'.current = scope.stop ∧
      b'.graph.table = b.graph.table ++ [scope.stop] ∧
      b'.graph.arena.size = b.graph.arena.size ∧ Keeps [scope.stop] b.graph b'.graph ∧
      b'.graph.core? scope.stop = some { x with id := some b.graph.table.length } := by
  have run := close_run scopes known
  have closed := sound.closed scopes known
  rw [anonymous, Option.isNone_none, if_pos rfl] at run closed
  refine ⟨_, run, closed, rfl, rfl, rfl, Graph.size_numbered, Graph.keeps_numbered, ?_⟩
  rw [Graph.core?_numbered, if_pos rfl, known]
  rfl

/-- Closing a scope whose end has a number leaves the graph alone. -/
theorem close_loop_spec {scope : Scope} {rest : List Scope} (scopes : b.scopes = scope :: rest)
    (known : b.graph.core? scope.stop = some x) {i : Nat} (id : x.id = some i) :
    ∃ b', close b = .ok (!x.sealed) b' ∧ b'.Sound ∧ b'.scopes = rest ∧ b'.current = scope.stop ∧
      b'.graph = b.graph := by
  have run := close_run scopes known
  have closed := sound.closed scopes known
  rw [id, Option.isNone_some, if_neg Bool.false_ne_true] at run closed
  exact ⟨_, run, closed, rfl, rfl, rfl⟩

theorem sealToExit_spec (at_ : b.At (some (c, p))) :
    ∃ b', sealToExit b = .ok () b' ∧ b'.Sound ∧ b'.Stopped ∧ b'.scopes = b.scopes ∧
      b'.current = b.current ∧ b'.graph.table = b.graph.table ∧
      Keeps [b.current] b.graph b'.graph ∧
      b'.graph.core? b.current = some (Ending.returns.block (some c) p) := by
  have known : b.graph.core? b.current = _ := at_
  have here := current_lt known
  have inside := at_.inside sound
  have exit := sound.graph.exit_lt
  have other : b.current ≠ Graph.exit := by
    show b.current ≠ 1
    omega
  have core : (b.graph.returned b.current b.fallthrough).core? b.current =
      some (Ending.returns.block (some c) p) := by
    rw [Graph.core?_returned, if_pos rfl, known]
    simp [Ending.block, Ending.successors, Block.dropSuccessor, Block.addSuccessor]
  refine ⟨_, sealToExit_run known rfl sound.fallthrough_lt exit, ⟨?_, ?_, ?_⟩, ⟨?_, ?_, other⟩,
    rfl, rfl, Graph.table_returned, Graph.keeps_returned, core⟩
  · exact sound.graph.returned inside here
  · intro s member
    simpa using sound.scopes s member
  · intro h high lt unnamed
    refine sound.anonymous h high (by simpa using lt) ?_
    by_cases same : h = b.current
    · subst h
      simp [Graph.number?, core, Ending.block] at unnamed
    · simpa [Graph.number?, Graph.core?_returned, same] using unnamed
  · obtain ⟨y, found, core⟩ := Graph.core?_eq_some.1 core
    have sealed : y.core.sealed = true := by rw [core]; rfl
    have leads : y.core.successors = .singleton Graph.exit := by rw [core]; rfl
    exact ⟨y, found, sealed, leads⟩
  · obtain ⟨y, found⟩ := Option.isSome_iff_exists.1 (Graph.block?_isSome_iff.2 exit)
    obtain ⟨y', found', order⟩ := Graph.returned_last sound.graph.mirrored known rfl other found
    exact ⟨y', _, found', order⟩

end Calls

/-! ## The first state -/

section

variable (name : String) (returnType parameters : List String)

theorem edge_ofSignature {u v : Nat} :
    (ofSignature name returnType parameters).graph.Edge u v ↔
      u = Graph.entry ∧ v = 2 ∨ u = 2 ∧ v = Graph.exit := by
  match u with
  | 0 | 1 | 2 | u + 3 => simp [Graph.Edge, Graph.block?, ofSignature, Graph.entry, Graph.exit]

theorem entered_ofSignature {u v : Nat} :
    (ofSignature name returnType parameters).graph.Entered u v ↔
      u = Graph.entry ∧ v = 2 ∨ u = 2 ∧ v = Graph.exit := by
  match v with
  | 0 | 1 | 2 | v + 3 => simp [Graph.Entered, Graph.block?, ofSignature, Graph.entry, Graph.exit]

theorem sound_ofSignature : (ofSignature name returnType parameters).Sound where
  graph := {
    mirrored := fun u v => by rw [edge_ofSignature, entered_ofSignature]
    kinds := fun h x known => by
      match h with
      | 0 | 1 | 2 => cases known; rfl
      | h + 3 => cases known
    numbers := fun i h => by
      have table : (ofSignature name returnType parameters).graph.table = [2] := rfl
      rw [table, List.getElem?_singleton]
      match h with
      | 0 | 1 | h + 3 => simp [Graph.number?, Graph.core?, Graph.block?, ofSignature, Block.core]
      | 2 =>
        simp [Graph.number?, Graph.core?, Graph.block?, ofSignature, Block.core]
        omega
    entry := rfl
    exit := rfl
    first := rfl
    source := fun u => by simp [edge_ofSignature, Graph.entry, Graph.exit] }
  scopes := by simp [ofSignature]
  anonymous h high lt none := by
    obtain rfl : h = 2 := Nat.le_antisymm (Nat.le_of_lt_succ lt) high
    cases none

end

end Builder

end Flowgraph
