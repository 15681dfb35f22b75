import Flowgraph.Proofs.Script
import Flowgraph.Proofs.Spares

/-!
# What a statement does to a builder

A statement may be grown wherever the current block leads to the end of the innermost scope and
nowhere else.  It leaves the builder in such a place again, or at a block that a return has sealed,
with the scopes that were open before; and it touches no block but the current one, apart from edges
that enter the end of the scope or the exit.
-/

namespace Flowgraph

open Edit

namespace Builder

open Flowgraph.Graph (Spares)

variable {b b' b'' : Builder} {x : Block} {start stop k : Nat} {rest : List Scope}

/-- A statement may be grown here: the current block leads to the end of the innermost scope and
nowhere else, or a return has sealed it. -/
def Ready (b : Builder) : Prop :=
  ∃ x, b.graph.core? b.current = some x ∧
    (x.sealed = true ∨ x.sealed = false ∧ x.successors = .singleton b.fallthrough)

/-- What a statement makes of a builder. -/
structure Grown (b b' : Builder) : Prop where
  regular : b'.Regular
  ready : b'.Ready
  scopes : b'.scopes = b.scopes
  current : b'.current = b.current ∨ b.graph.arena.size ≤ b'.current
  spares : Spares [b.current] [b.fallthrough, Graph.exit] b.graph b'.graph

theorem fallthrough_eq (scopes : b'.scopes = b.scopes) : b'.fallthrough = b.fallthrough := by
  rw [fallthrough, fallthrough, scopes]

theorem fallthrough_of_scope (scopes : b.scopes = ⟨start, stop⟩ :: rest) :
    b.fallthrough = stop := by
  rw [fallthrough, scopes]

theorem Grown.refl (regular : b.Regular) (ready : b.Ready) : b.Grown b :=
  ⟨regular, ready, rfl, .inl rfl, .refl _⟩

theorem Grown.trans (first : b.Grown b') (second : b'.Grown b'') : b.Grown b'' where
  regular := second.regular
  ready := second.ready
  scopes := second.scopes.trans first.scopes
  current := by
    have size := first.spares.size
    have before := first.current
    have behind := second.current
    omega
  spares := by
    have before := first.current
    apply first.spares.trans second.spares
    · simp only [List.mem_singleton, forall_eq]
      omega
    · rw [fallthrough_eq first.scopes]
      exact fun h member _ => .inr member

/-- The edit grows the graph like a statement. -/
def Proceeds (grow : Build Unit) : Prop :=
  ∀ b : Builder, b.Regular → b.Ready → ∃ b', grow b = .ok () b' ∧ b.Grown b'

namespace Proceeds

theorem nothing : Proceeds (pure ()) := fun b regular ready => ⟨b, rfl, .refl regular ready⟩

theorem both {first second : Build Unit} (before : Proceeds first) (behind : Proceeds second) :
    Proceeds (do first; second) := by
  intro b regular ready
  obtain ⟨b₁, run, grown⟩ := before b regular ready
  obtain ⟨b₂, run', grown'⟩ := behind b₁ grown.regular grown.ready
  exact ⟨b₂, (bind_ok run).trans run', grown.trans grown'⟩

end Proceeds

/-- Adding text to the current block is one step for each fragment. -/
theorem Regular.appended (regular : b.Regular) (fragments : List String) :
    (b.appended fragments).Regular :=
  regular.noted (f := (·.addLines fragments)) (by constructor <;> intro x <;> rfl) fun _ => rfl

theorem spares_appended {near : List Nat} (fragments : List String) :
    Spares [b.current] near b.graph (b.appended fragments).graph :=
  Graph.spares_revise fun _ => rfl

theorem current_appended (known : b.graph.core? b.current = some x) (fragments : List String) :
    (b.appended fragments).graph.core? b.current = some (x.addLines fragments) := by
  rw [core?_appended, if_pos rfl, known, Option.map_some]

namespace Proceeds

theorem appendAll (fragments : List String) : Proceeds (appendAll fragments) := by
  intro b regular ready
  obtain ⟨x, known, full | ⟨open_, leads⟩⟩ := id ready
  · exact ⟨b, appendAll_of_sealed known full fragments, .refl regular ready⟩
  · have ready' : (b.appended fragments).Ready :=
      ⟨_, current_appended known fragments, .inr ⟨open_, leads⟩⟩
    exact ⟨_, appendAll_run fragments known open_, regular.appended fragments, ready', rfl, .inl rfl,
      spares_appended fragments⟩

theorem sealToExit : Proceeds sealToExit := by
  intro b regular ready
  obtain ⟨x, known, shape⟩ := ready
  have targets : ∀ v ∈ x.successors, v < b.graph.arena.size := by
    intro v member
    exact regular.graph.edge_lt (Graph.edge_iff_core.2 ⟨x, known, member⟩)
  have core := Graph.core?_sealing (g := b.graph) (c := b.current) x.successors.toList b.current
  rw [if_pos rfl, known, Option.map_some] at core
  refine ⟨_, sealToExit_cuts known targets regular.graph.exit_lt, regular.sealed known,
    ⟨_, core, .inl rfl⟩, rfl, .inl rfl, ?_⟩
  apply Spares.trans (.refl _) Graph.spares_sealing
  · exact fun h member _ => member
  · intro h member _
    -- What the block led to is the end of the scope, or the exit if a return sealed it before.
    obtain full | ⟨-, leads⟩ := shape
    · rw [regular.graph.closes _ x known full] at member
      simp at member
      simp [member]
    · rw [leads] at member
      simp at member
      simp [or_comm, member]

end Proceeds

/-! ## At a block that is open -/

/-- A new block behind the current block `x` of `b` is the current block of `b'`. -/
structure Advances (b b' : Builder) (x : Block) : Prop where
  regular : b'.Regular
  scopes : b'.scopes = b.scopes
  current : b'.current = b.graph.arena.size
  size : b'.graph.arena.size = b.graph.arena.size + 1
  new : b'.graph.core? b.graph.arena.size =
    some ((Ending.goes b.fallthrough).block (some b.graph.table.length) [])
  left : b'.graph.core? b.current =
    some ((x.dropSuccessor b.fallthrough).addSuccessor b.graph.arena.size)
  spares : Spares [b.current] [b.fallthrough] b.graph b'.graph

theorem Regular.advances (regular : b.Regular) (known : b.graph.core? b.current = some x)
    (unsealed : x.sealed = false) : Advances b b.advanced x := by
  have here := current_lt known
  refine ⟨regular.advanced known unsealed, scopes_advanced, current_advanced, size_advanced,
    ?_, ?_, ?_⟩
  · rw [core?_advanced here, if_pos rfl]
  · rw [core?_advanced here, if_neg (Nat.ne_of_lt here), if_pos rfl, known, Option.map_some]
  · exact (Graph.spares_spliced here).trans (@Graph.spares_numbered _ _ []) (by simp) (by simp)

theorem Regular.advance_goes (regular : b.Regular) (known : b.graph.core? b.current = some x)
    (unsealed : x.sealed = false) : ∃ b', advance b = .ok true b' ∧ Advances b b' x :=
  ⟨_, advance_run known unsealed regular.fallthrough_lt, regular.advances known unsealed⟩

/-- The new block leads to the end of the innermost scope. -/
theorem Advances.ready (advances : Advances b b' x) : b'.Ready := by
  refine ⟨_, advances.current ▸ advances.new, .inr ⟨rfl, ?_⟩⟩
  rw [fallthrough_eq advances.scopes]
  rfl

/-- Closing a scope goes on at its end, which is as it was but for its number. -/
theorem close_goes (regular : b.Regular) (scopes : b.scopes = ⟨start, stop⟩ :: rest)
    (known : b.graph.core? stop = some x) (unsealed : x.sealed = false) :
    ∃ b', close b = .ok true b' ∧ b'.Regular ∧ b'.current = stop ∧ b'.scopes = rest ∧
      Spares [stop] [] b.graph b'.graph ∧
      ∃ y, b'.graph.core? stop = some y ∧ y.sealed = false ∧ y.successors = x.successors := by
  have run := close_run scopes known
  have closed := regular.closed scopes known
  rw [unsealed] at run
  refine ⟨_, run, closed, rfl, rfl, ?_⟩
  dsimp only
  split
  · refine ⟨Graph.spares_numbered, { x with id := some b.graph.table.length }, ?_, unsealed, rfl⟩
    rw [Graph.core?_numbered, if_pos rfl, known, Option.map_some]
  · exact ⟨.refl _, x, known, unsealed, rfl⟩

/-! ## Branches -/

/-- Inside a branch: where it starts is open, and where it ends is open and leads to `k`. -/
structure Inside (b : Builder) (start stop k : Nat) (rest : List Scope) : Prop where
  regular : b.Regular
  scopes : b.scopes = ⟨start, stop⟩ :: rest
  apart : start ≠ stop
  start : ∃ x, b.graph.core? start = some x ∧ x.sealed = false
  stop : ∃ x, b.graph.core? stop = some x ∧ x.sealed = false ∧ x.successors = .singleton k

/-- The edit grows what is inside a branch that was just opened. -/
def Fills (inner : Build Unit) : Prop :=
  ∀ (b : Builder) (start stop k : Nat) (rest : List Scope), b.Inside start stop k rest →
    b.current = stop →
    (∃ x, b.graph.core? start = some x ∧ x.sealed = false ∧ x.successors = .singleton stop) →
    ∃ b', inner b = .ok () b' ∧ b'.Regular ∧ b'.scopes = ⟨start, stop⟩ :: rest ∧
      (∃ x, b'.graph.core? stop = some x ∧ x.sealed = false ∧ x.successors = .singleton k) ∧
      Spares [start, stop] [Graph.exit] b.graph b'.graph

/-- A branch that is opened at an open block ends at a new one, to which the old block now leads. -/
theorem Regular.opens_branch (regular : b.Regular) (known : b.graph.core? b.current = some x)
    (open_ : x.sealed = false) (leads : x.successors = .singleton b.fallthrough) :
    ∃ b', openBranch b = .ok true b' ∧
      b'.Inside b.current b.graph.arena.size b.fallthrough b.scopes ∧
      b'.current = b.graph.arena.size ∧
      (∃ y, b'.graph.core? b.current = some y ∧ y.sealed = false ∧
        y.successors = .singleton b.graph.arena.size) ∧
      Spares [b.current] [b.fallthrough] b.graph b'.graph := by
  have here := current_lt known
  have spliced := Graph.core?_spliced (g := b.graph) (k := b.fallthrough) here
  have join := spliced b.graph.arena.size
  have left := spliced b.current
  rw [if_pos rfl] at join
  rw [if_neg (Nat.ne_of_lt here), if_pos rfl, known, Option.map_some] at left
  have onward : ((x.dropSuccessor b.fallthrough).addSuccessor b.graph.arena.size).successors =
      .singleton b.graph.arena.size := by
    simp [Block.addSuccessor, Block.dropSuccessor, leads]
  exact ⟨_, openBranch_run known open_ regular.fallthrough_lt,
    ⟨regular.openedBranch known open_, rfl, Nat.ne_of_lt here, ⟨_, left, open_⟩,
      ⟨_, join, rfl, rfl⟩⟩, rfl, ⟨_, left, open_, onward⟩, Graph.spares_spliced here⟩

/-- A branch that is opened, filled and closed goes on at a new block, which leads where the old one
did. -/
theorem Fills.withBranch {inner : Build Unit} (fills : Fills inner) (regular : b.Regular)
    (known : b.graph.core? b.current = some x) (open_ : x.sealed = false)
    (leads : x.successors = .singleton b.fallthrough) :
    ∃ b', withBranch inner b = .ok true b' ∧ b'.Regular ∧ b'.scopes = b.scopes ∧
      b'.current = b.graph.arena.size ∧
      (∃ y, b'.graph.core? b'.current = some y ∧ y.sealed = false ∧
        y.successors = .singleton b.fallthrough) ∧
      Spares [b.current] [b.fallthrough, Graph.exit] b.graph b'.graph := by
  obtain ⟨b₁, opened, inside, current, branching, spares₁⟩ :=
    regular.opens_branch known open_ leads
  obtain ⟨b₂, run, regular₂, scopes₂, ⟨y, known₂, open₂, leads₂⟩, spares₂⟩ :=
    fills b₁ _ _ _ _ inside current branching
  -- Closing the scope goes on at the join, which leads where the block did before.
  obtain ⟨b₃, closed, regular₃, current₃, scopes₃, spares₃, z, known₃, open₃, leads₃⟩ :=
    close_goes regular₂ scopes₂ known₂ open₂
  refine ⟨b₃, ?_, regular₃, scopes₃, current₃,
    ⟨z, current₃.symm ▸ known₃, open₃, leads₃.trans leads₂⟩, ?_⟩
  · rw [Builder.withBranch, bind_ok opened, if_pos rfl, bind_ok ((closing_run run).trans closed),
      pure_run]
  · have near : Graph.Spares [b.current] [b.fallthrough, Graph.exit] _ _ :=
      spares₁.widen (by simp) (by simp)
    exact (near.trans spares₂ (by simp) (by simp)).trans spares₃ (by simp) (by simp)

theorem Proceeds.withBranch {inner : Build Unit} (fills : Fills inner) :
    Proceeds (do let _ ← withBranch inner) := by
  intro b regular ready
  obtain ⟨x, known, full | ⟨open_, leads⟩⟩ := id ready
  · exact ⟨b, bind_ok (withBranch_of_sealed known full inner), .refl regular ready⟩
  · obtain ⟨b', ran, regular', scopes', current', ⟨y, known', open', leads'⟩, spares'⟩ :=
      fills.withBranch regular known open_ leads
    refine ⟨b', bind_ok ran, regular', ⟨y, known', .inr ⟨open', ?_⟩⟩, scopes',
      .inr (Nat.le_of_eq current'.symm), spares'⟩
    rw [leads', fallthrough_eq scopes']

/-- Noting a target in block `h` changes nothing else. -/
structure Notes (b b' : Builder) (h : Nat) : Prop where
  regular : b'.Regular
  scopes : b'.scopes = b.scopes
  current : b'.current = b.current
  core : ∀ x, b.graph.core? h = some x → ∃ y, b'.graph.core? h = some y ∧ y.sealed = x.sealed
  spares : Spares [h] [] b.graph b'.graph

theorem Regular.notes {h : Nat} {f : Block → Block} (regular : b.Regular) (quiet : Block.Quiet f)
    (seals : ∀ x, (f x).sealed = x.sealed) :
    Notes b { b with graph := b.graph.revise h f } h where
  regular := regular.noted quiet seals
  scopes := rfl
  current := rfl
  core x known := by
    refine ⟨f x, ?_, seals x⟩
    rw [Graph.core?_revise quiet.core, if_pos rfl, known, Option.map_some]
  spares := Graph.spares_revise quiet.core

/-- Going back to where the branch starts. -/
theorem Inside.back (inside : b.Inside start stop k rest) :
    ∃ b', rewind b = .ok () b' ∧ b'.Inside start stop k rest ∧ b'.current = start ∧
      b'.graph = b.graph := by
  have regular := inside.regular.rewound inside.scopes
  exact ⟨_, rewind_run inside.scopes, { inside with regular }, rfl, rfl⟩

/-- An arm of an `if` is grown behind the block that branches, which notes where it begins. -/
theorem Inside.arm (inside : b.Inside start stop k rest) {grow : Build Unit}
    (proceeds : Proceeds grow) (record : Nat → Build Unit)
    (notes : ∀ b : Builder, b.Regular → start < b.graph.arena.size →
      ∃ b', record start b = .ok () b' ∧ Notes b b' start) :
    ∃ b₁ b₂ b₃ b', rewind b = .ok () b₁ ∧ b₁.Inside start stop k rest ∧ b₁.current = start ∧
      advance b₁ = .ok true b₂ ∧ record start b₂ = .ok () b₃ ∧ b₃.Regular ∧ b₃.Ready ∧
      grow b₃ = .ok () b' ∧ b'.Inside start stop k rest ∧
      Spares [start] [stop, Graph.exit] b.graph b'.graph := by
  obtain ⟨b₁, back, inside₁, current₁, graph₁⟩ := inside.back
  obtain ⟨x, known, open_⟩ := inside₁.start
  obtain ⟨y, join, open', leads⟩ := inside.stop
  have fallthrough₁ := fallthrough_of_scope inside₁.scopes
  -- The arm gets a block of its own, behind the one that branches.
  obtain ⟨b₂, run₂, advances⟩ := inside₁.regular.advance_goes (current₁.symm ▸ known) open_
  have new := advances.new
  have left := advances.left
  have spares₂ := advances.spares
  rw [current₁] at left spares₂
  rw [fallthrough₁] at new spares₂
  rw [graph₁] at known new spares₂
  have here : start < b.graph.arena.size := Graph.core?_isSome_iff.1 (by simp [known])
  have there := Nat.lt_of_lt_of_le here spares₂.size
  -- Noting the target changes the branching block, so the new one is as it was.
  obtain ⟨b₃, run₃, noted⟩ := notes b₂ advances.regular there
  have current₃ : b₃.current = b.graph.arena.size :=
    noted.current.trans (graph₁ ▸ advances.current)
  have scopes₃ : b₃.scopes = ⟨start, stop⟩ :: rest :=
    noted.scopes.trans (advances.scopes.trans inside₁.scopes)
  have fallthrough₃ := fallthrough_of_scope scopes₃
  have new₃ := noted.spares.lookup new (by simp; omega)
  have ready₃ : b₃.Ready := by
    refine ⟨_, current₃ ▸ new₃, .inr ⟨rfl, ?_⟩⟩
    rw [fallthrough₃]
    rfl
  obtain ⟨b', run', grown⟩ := proceeds b₃ noted.regular ready₃
  -- The arm is grown at the new block only.
  have spares : Spares [start] [stop, Graph.exit] b.graph b'.graph := by
    have near : Spares [start] [stop, Graph.exit] _ _ := spares₂.widen (by simp) (by simp)
    have spares₃ := near.trans noted.spares (by simp) (by simp)
    have spares' := grown.spares
    rw [current₃, fallthrough₃] at spares'
    exact spares₃.trans spares' (by simp) (by simp)
  have start' : ∃ y, b'.graph.core? start = some y ∧ y.sealed = false := by
    obtain ⟨z, known₃, sealed₃⟩ := noted.core _ left
    refine ⟨z, grown.spares.lookup known₃ ?_, sealed₃.trans open_⟩
    simp only [List.mem_singleton]
    omega
  have stop' : ∃ y, b'.graph.core? stop = some y ∧ y.sealed = false ∧
      y.successors = .singleton k :=
    ⟨y, spares.lookup join (by simpa using Ne.symm inside.apart), open', leads⟩
  exact ⟨b₁, b₂, b₃, b', back, inside₁, current₁, run₂, run₃, noted.regular, ready₃, run',
    ⟨grown.regular, grown.scopes.trans scopes₃, inside.apart, start', stop'⟩, spares⟩

/-- Both arms of an `if` are grown inside its scope. -/
theorem fills_arms {thenArm elseArm : Build Unit} (first : Proceeds thenArm)
    (second : Proceeds elseArm) :
    Fills (do
      rewind
      let branching ← currentHandle
      let _ ← advance
      recordThen branching
      thenArm
      rewind
      let _ ← advance
      recordElse branching
      elseArm) := by
  intro b start stop k rest inside _ _
  obtain ⟨b₁, b₂, b₃, b₄, back, -, current, run₁, run₂, -, -, run₃, inside₄, spares₄⟩ :=
    inside.arm first recordThen fun b regular known => ⟨_, recordThen_run known,
      regular.notes (by constructor <;> intro x <;> rfl) fun _ => rfl⟩
  obtain ⟨b₅, b₆, b₇, b₈, back', -, -, run₅, run₆, -, -, run₇, inside₈, spares₈⟩ :=
    inside₄.arm second recordElse fun b regular known => ⟨_, recordElse_run known,
      regular.notes (by constructor <;> intro x <;> rfl) fun _ => rfl⟩
  have handle : currentHandle b₁ = .ok start b₁ := current ▸ rfl
  refine ⟨b₈, ?_, inside₈.regular, inside₈.scopes, inside₈.stop, ?_⟩
  · rw [bind_ok back, bind_ok handle, bind_ok run₁, bind_ok run₂, bind_ok run₃, bind_ok back',
      bind_ok run₅, bind_ok run₆, run₇]
  · have both := spares₄.trans spares₈ (by simp) (by simp)
    exact both.widen (by simp) (by simp)

/-- The update of a `for` is written to the end of the scope, and the builder goes back to where the
scope starts. -/
theorem Inside.write (inside : b.Inside start stop k rest) (current : b.current = stop)
    (leads : ∃ x, b.graph.core? start = some x ∧ x.sealed = false ∧ x.successors = .singleton stop)
    (fragments : List String) :
    ∃ b₁ b₂, appendAll fragments b = .ok () b₁ ∧ rewind b₁ = .ok () b₂ ∧
      b₂.Inside start stop k rest ∧ b₂.Ready ∧ b₂.current = start ∧
      Spares [stop] [] b.graph b₂.graph := by
  obtain ⟨x, known, open_, onward⟩ := leads
  obtain ⟨y, join, open', leads⟩ := inside.stop
  -- While the scope is fresh the builder stands at its end, where the update is written.
  have wrote := appendAll_run fragments (current ▸ join) open'
  have spares₁ : Spares [stop] [] b.graph (b.appended fragments).graph :=
    current ▸ spares_appended fragments
  have join₁ : (b.appended fragments).graph.core? stop = some (y.addLines fragments) :=
    current ▸ current_appended (current ▸ join) fragments
  have known₁ := spares₁.lookup known (by simpa using inside.apart)
  have inside₁ : (b.appended fragments).Inside start stop k rest :=
    ⟨inside.regular.appended fragments, inside.scopes, inside.apart, ⟨x, known₁, open_⟩,
      ⟨_, join₁, open', leads⟩⟩
  -- Back at the start of the scope nothing has changed, and a body may be grown.
  obtain ⟨b₂, back, inside₂, current₂, graph₂⟩ := inside₁.back
  have ready₂ : b₂.Ready := by
    refine ⟨x, ?_, .inr ⟨open_, ?_⟩⟩
    · rw [current₂, graph₂, known₁]
    · rw [fallthrough_of_scope inside₂.scopes, onward]
  exact ⟨_, b₂, wrote, back, inside₂, ready₂, current₂, graph₂ ▸ spares₁⟩

/-- The update of a `for` is written to the end of the scope, and the body is grown in front
of it. -/
theorem fills_update {body : Build Unit} (fragments : List String) (proceeds : Proceeds body) :
    Fills (do
      appendAll fragments
      rewind
      body) := by
  intro b start stop k rest inside current leads
  obtain ⟨b₁, b₂, wrote, back, inside₂, ready₂, current₂, spares₁⟩ :=
    inside.write current leads fragments
  obtain ⟨b', run, grown⟩ := proceeds b₂ inside₂.regular ready₂
  have spares₂ := grown.spares
  rw [current₂, fallthrough_of_scope inside₂.scopes] at spares₂
  obtain ⟨y, join, open_, leads'⟩ := inside₂.stop
  have join' := spares₂.lookup join (by simpa using Ne.symm inside.apart)
  have wide : Spares [start, stop] [Graph.exit] _ _ := spares₁.widen (by simp) (by simp)
  refine ⟨b', ?_, grown.regular, grown.scopes.trans inside₂.scopes, ⟨y, join', open_, leads'⟩,
    wide.trans spares₂ (by simp) (by simp)⟩
  rw [bind_ok wrote, bind_ok back, run]

/-! ## Loops -/

/-- A loop that was opened goes on at a new block, which its header notes. -/
theorem leaveLoop_goes (regular : b.Regular) (known : b.graph.core? b.current = some x)
    (unsealed : x.sealed = false) :
    ∃ b', leaveLoop b = .ok () b' ∧ b'.Regular ∧ b'.Ready ∧ b'.scopes = b.scopes ∧
      b.graph.arena.size ≤ b'.current ∧
      Spares [b.current] [b.fallthrough] b.graph b'.graph := by
  have here := current_lt known
  obtain ⟨b₁, run₁, advances⟩ := regular.advance_goes known unsealed
  have there := Nat.lt_of_lt_of_le here advances.spares.size
  obtain ⟨b₂, run₂, notes⟩ :
      ∃ b₂, recordLoopExit b.current b₁ = .ok () b₂ ∧ Notes b₁ b₂ b.current :=
    ⟨_, recordLoopExit_run there, advances.regular.notes (by constructor <;> intro x <;> rfl)
      fun _ => rfl⟩
  have current : b₂.current = b.graph.arena.size := notes.current.trans advances.current
  have scopes : b₂.scopes = b.scopes := notes.scopes.trans advances.scopes
  have new := notes.spares.lookup advances.new (by simp; omega)
  refine ⟨b₂, ?_, notes.regular, ⟨_, current.symm ▸ new, .inr ⟨rfl, ?_⟩⟩, scopes,
    Nat.le_of_eq current.symm, advances.spares.trans notes.spares (by simp) (by simp)⟩
  · rw [leaveLoop, bind_ok (show currentHandle b = .ok b.current b from rfl), bind_ok run₁, run₂]
  · rw [fallthrough_eq scopes]
    rfl

/-- A loop that is opened at an open block begins with a new block, its header, and what is inside is
grown behind the header. -/
theorem Regular.opens_loop (regular : b.Regular) (known : b.graph.core? b.current = some x)
    (open_ : x.sealed = false) (header : List String) :
    ∃ b₁ b₂ b₃, openLoop b = .ok true b₁ ∧ b₁.Regular ∧
      (∃ y, b₁.graph.core? b₁.current = some y ∧ y.sealed = false) ∧
      appendAll header b₁ = .ok () b₂ ∧ advance b₂ = .ok true b₃ ∧ b₃.Regular ∧ b₃.Ready ∧
      b₃.scopes = ⟨b.graph.arena.size, b.graph.arena.size⟩ :: b.scopes ∧
      b.graph.arena.size < b₃.current ∧
      (∃ y, b₃.graph.core? b.graph.arena.size = some y ∧ y.sealed = false) ∧
      Spares [b.current] [b.fallthrough, Graph.exit] b.graph b₃.graph := by
  have advances := regular.advances known open_
  obtain ⟨b₁, opened, graph₁, current₁, scopes₁, regular₁⟩ : ∃ b₁, openLoop b = .ok true b₁ ∧
      b₁.graph = b.advanced.graph ∧ b₁.current = b.graph.arena.size ∧
      b₁.scopes = ⟨b.graph.arena.size, b.graph.arena.size⟩ :: b.scopes ∧ b₁.Regular :=
    ⟨_, openLoop_run known open_ regular.fallthrough_lt, rfl, rfl, rfl,
      regular.openedLoop known open_⟩
  have spares₁ := advances.spares
  have header₁ := advances.new
  have size₁ := advances.size
  rw [← graph₁] at spares₁ header₁ size₁
  -- The header is written to the new block, and the inside is grown behind it.
  have wrote := appendAll_run header (current₁ ▸ header₁) rfl
  have spares₂ : Spares [b.graph.arena.size] [] b₁.graph (b₁.appended header).graph :=
    current₁ ▸ spares_appended header
  have header₂ := current_appended (current₁ ▸ header₁) header
  have fallthrough₂ : (b₁.appended header).fallthrough = b.graph.arena.size :=
    fallthrough_of_scope scopes₁
  obtain ⟨b₃, run₃, advances₃⟩ := (regular₁.appended header).advance_goes header₂ rfl
  have header₃ := advances₃.left
  have current₃ := advances₃.current
  have spares₃ := advances₃.spares
  have size₂ := spares₂.size
  have here₂ : (b₁.appended header).current = b.graph.arena.size := current₁
  rw [here₂] at header₃ spares₃
  rw [fallthrough₂] at spares₃
  refine ⟨b₁, _, b₃, opened, regular₁, ⟨_, current₁ ▸ header₁, rfl⟩, wrote, run₃,
    advances₃.regular, advances₃.ready, advances₃.scopes.trans scopes₁, by omega,
    ⟨_, header₃, rfl⟩, ?_⟩
  have wide : Spares [b.current] [b.fallthrough, Graph.exit] _ _ :=
    spares₁.widen (by simp) (by simp)
  exact (wide.trans spares₂ (by simp) (by simp)).trans spares₃ (by simp) (by simp)

/-- What is inside a loop is grown behind its header, at which the loop is left again. -/
theorem Proceeds.withLoop {inner : Build Unit} (proceeds : Proceeds inner) (regular : b.Regular)
    (known : b.graph.core? b.current = some x) (open_ : x.sealed = false) (header : List String) :
    ∃ b', (withLoop do
        Builder.appendAll header
        let _ ← advance
        inner) b = .ok true b' ∧
      b'.Regular ∧ b'.scopes = b.scopes ∧ b'.current = b.graph.arena.size ∧
      (∃ y, b'.graph.core? b'.current = some y ∧ y.sealed = false) ∧
      Spares [b.current] [b.fallthrough, Graph.exit] b.graph b'.graph := by
  have here := current_lt known
  obtain ⟨b₁, b₂, b₃, opened, -, -, wrote, run₃, regular₃, ready₃, scopes₃, apart, header₃,
    spares₃⟩ := regular.opens_loop known open_ header
  obtain ⟨b₄, run₄, grown⟩ := proceeds b₃ regular₃ ready₃
  have spares₄ := grown.spares
  rw [fallthrough_of_scope scopes₃] at spares₄
  -- The inside does not touch the header, which is both the start and the end of the scope.
  obtain ⟨y, header₃, open₃⟩ := header₃
  have header₄ := spares₄.lookup header₃ (by simp; omega)
  obtain ⟨b₅, closed, regular₅, current₅, scopes₅, spares₅, z, header₅, open₅, -⟩ :=
    close_goes grown.regular (grown.scopes.trans scopes₃) header₄ open₃
  have inside : (do
      Builder.appendAll header
      let _ ← advance
      inner : Build Unit) b₁ = .ok () b₄ := by
    rw [bind_ok wrote, bind_ok run₃, run₄]
  refine ⟨b₅, ?_, regular₅, scopes₅, current₅, ⟨z, current₅.symm ▸ header₅, open₅⟩, ?_⟩
  · rw [Builder.withLoop, bind_ok opened, if_pos rfl, closing_run inside, closed]
  · -- Only the current block is old; the others are entered from new ones.
    have until₄ := spares₃.trans spares₄ (by simp; omega) (by simp)
    exact until₄.trans spares₅ (by simp) (by simp)

/-- A loop that was grown goes on behind its header. -/
theorem Proceeds.loop (header : List String) {inner : Build Unit} (proceeds : Proceeds inner) :
    Proceeds (do
      let resumed ← Builder.withLoop do
        Builder.appendAll header
        let _ ← advance
        inner
      if resumed then leaveLoop) := by
  intro b regular ready
  obtain ⟨x, known, full | ⟨open_, -⟩⟩ := id ready
  · exact ⟨b, bind_ok (withLoop_of_sealed known full _), .refl regular ready⟩
  · have here := current_lt known
    obtain ⟨b₁, ran, regular₁, scopes₁, current₁, ⟨y, header₁, open₁⟩, spares₁⟩ :=
      proceeds.withLoop regular known open_ header
    obtain ⟨b₂, run₂, regular₂, ready₂, scopes₂, current₂, spares₂⟩ :=
      leaveLoop_goes regular₁ header₁ open₁
    rw [current₁, fallthrough_eq scopes₁] at spares₂
    have size₁ := spares₁.size
    refine ⟨b₂, ?_, regular₂, ready₂, scopes₂.trans scopes₁, .inr (by omega), ?_⟩
    · rw [bind_ok ran, if_pos rfl, run₂]
    · exact spares₁.trans spares₂ (by simp) (by simp)

end Builder

open Builder

/-- Every statement grows the graph in this way. -/
theorem Statement.proceeds_grow (s : Statement) : Proceeds s.grow := by
  induction s using Statement.induction with
  | simple tokens location =>
    unfold grow
    exact .appendAll _
  | sequence body location each =>
    unfold grow
    induction body with
    | nil => exact .nothing
    | cons s rest ih =>
      unfold growAll
      apply Proceeds.both
      · exact each s List.mem_cons_self
      · exact ih fun t member => each t (List.mem_cons_of_mem s member)
  | branch condition consequent alternate location thenArm elseArm =>
    unfold grow
    apply Proceeds.both (.appendAll _)
    apply Proceeds.withBranch
    apply fills_arms thenArm
    unfold growOption
    cases alternate with
    | none => exact .nothing
    | some s => exact elseArm s rfl
  | whileLoop condition body location ih =>
    unfold grow
    exact ih.loop _
  | forLoop init condition update body location ih =>
    have inner : Proceeds (do
        let _ ← withBranch (do
          Builder.appendAll (clauseLines update)
          rewind
          body.grow)) := .withBranch (fills_update _ ih)
    unfold grow
    cases init with
    | none => cases update <;> exact inner.loop _
    | some init =>
      apply Proceeds.both (.appendAll _)
      cases update <;> exact inner.loop _
  | ret tokens location =>
    unfold grow
    exact .both (.appendAll _) .sealToExit

/-! ## While the graph of a function is grown -/

namespace Builder

/-- The current block is open and leads to `k` only. -/
def OpenTo (b : Builder) (k : Nat) : Prop :=
  ∃ x, b.graph.block? b.current = some x ∧ x.sealed = false ∧ x.successors = .singleton k

/-- A return has sealed the current block, which leads to the exit only. -/
def Returned (b : Builder) : Prop :=
  ∃ x, b.graph.block? b.current = some x ∧ x.sealed = true ∧
    x.successors = .singleton Graph.exit

/-- From `b` to `b'` the builder has moved on in its innermost scope.  Of the other blocks only the
end of the scope and the exit have changed, and these only in what enters them. -/
structure MovesOn (b b' : Builder) : Prop where
  scopes : b'.scopes = b.scopes
  current : b'.Returned ∨ b'.OpenTo b.fallthrough
  entered : ∀ h x, h ≠ b.current → b.graph.block? h = some x →
    ∃ y, b'.graph.block? h = some y ∧ y = { x with predecessors := y.predecessors }
  same : ∀ h x, h ≠ b.current → h ≠ b.fallthrough → h ≠ Graph.exit →
    b.graph.block? h = some x → b'.graph.block? h = some x

theorem Grown.movesOn {b b' : Builder} (grown : b.Grown b') : b.MovesOn b' where
  scopes := grown.scopes
  current := by
    obtain ⟨x, known, shape⟩ := grown.ready
    obtain ⟨y, found, rfl⟩ := Graph.core?_eq_some.1 known
    obtain full | ⟨open_, leads⟩ := shape
    · have leads : y.core.successors = .singleton Graph.exit :=
        grown.regular.graph.closes _ _ known full
      exact .inl ⟨y, found, full, leads⟩
    · exact .inr ⟨y, found, open_, fallthrough_eq grown.scopes ▸ leads⟩
  entered h x other found := by
    -- A block that is old keeps everything but its predecessors.
    have old := Graph.block?_isSome_iff.1 (Option.isSome_of_eq_some found)
    have core := grown.spares.core h old (by simpa using other)
    rw [Graph.core?, Graph.core?, found] at core
    obtain ⟨y, found', same⟩ := Option.map_eq_some_iff.1 core
    refine ⟨y, found', ?_⟩
    cases x
    cases y
    cases same
    rfl
  same h x other away outside found := by
    have old := Graph.block?_isSome_iff.1 (Option.isSome_of_eq_some found)
    rw [grown.spares.block h old (by simpa using other) (by simp [away, outside]), found]

end Builder

namespace SourceFunction

/-- The builder is `b` at some time while the graph of the function is grown. -/
def Passes (f : SourceFunction) (b : Builder) : Prop :=
  f.body.script.Passes (ofSignature f.name (Fragment.ofTokens f.returnType)
    (Fragment.ofTokens f.parameters)) b

theorem Passes.regular {f : SourceFunction} {b : Builder} (passes : f.Passes b) : b.Regular := by
  obtain ⟨calls, rfl⟩ := Script.Passes.calls passes
  exact ((regular_ofSignature _ _ _).after calls).1

/-- Wherever the current block leads to the end of the innermost scope while the graph of a function
is grown, any statement can be grown there, and moves the builder on in that scope. -/
theorem grow_movesOn (f : SourceFunction) {b : Builder} (passes : f.Passes b)
    (open_ : b.OpenTo b.fallthrough) (s : Statement) :
    ∃ b', s.grow b = .ok () b' ∧ b.MovesOn b' := by
  obtain ⟨x, found, unsealed, leads⟩ := open_
  have ready : b.Ready :=
    ⟨x.core, Graph.core?_eq_some.2 ⟨x, found, rfl⟩, .inr ⟨unsealed, leads⟩⟩
  obtain ⟨b', run, grown⟩ := s.proceeds_grow b passes.regular ready
  exact ⟨b', run, grown.movesOn⟩

/-- A loop with a return behind a condition, at the start of an empty function. -/
theorem grow_movesOn_loop :
    ∃ b', (Statement.whileLoop ["a"]
        (.branch ["b"] (.ret ["return", ";"] none) none none) none).grow
        (ofSignature "f" [] []) = .ok () b' ∧ (ofSignature "f" [] []).MovesOn b' :=
  grow_movesOn { name := "f", returnType := [], parameters := [], body := .sequence [] none }
    (Script.Passes.start _ _) ⟨_, rfl, rfl, rfl⟩ _

end SourceFunction

end Flowgraph
