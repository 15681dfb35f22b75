import Flowgraph.Proofs.Construction

/-!
# The graph of a statement is laid out

Growing a statement ends well and lays it out in the graph: `Statement.lays_grow`.  There is
one lemma for each kind of statement; each follows the calls that the statement makes and says
at the end where the blocks of the statement lie.
-/

namespace Flowgraph

open Edit

namespace Graph

variable {g g' : Graph} {c h i n m : Nat} {l : List Nat} {P Q : Spot} {s : Statement}
  {p lines : List String} {e : Ending (Option Nat)}

theorem Has.begins (has : g.Has i lines e) : g.Begins i lines := by
  obtain ⟨h, f, named, core, -⟩ := has
  exact ⟨h, _, named, core, List.prefix_rfl⟩

theorem Begins.shorter {more : List String} (begins : g.Begins i (lines ++ more)) :
    g.Begins i lines := by
  obtain ⟨h, x, named, core, starts⟩ := begins
  exact ⟨h, x, named, core, (List.prefix_append _ _).trans starts⟩

namespace Keeps

variable (keeps : Keeps l g g') (sound : g.Sound)

include keeps sound

/-- A block that is kept, seen by its number. -/
theorem core_named (named : g.table[i]? = some h) (other : h ∉ l) : g'.core? h = g.core? h :=
  keeps.core h (sound.lt_of_named named) other

theorem has (has : g.Has i lines e) (other : ∀ h ∈ l, g.table[i]? ≠ some h) :
    g'.Has i lines e :=
  has.mono keeps.table fun h named => keeps.core_named sound named fun member =>
    other h member named

theorem begins (begins : g.Begins i lines) (other : ∀ h ∈ l, g.table[i]? ≠ some h) :
    g'.Begins i lines :=
  begins.mono keeps.table fun h named => keeps.core_named sound named fun member =>
    other h member named

/-- What is grown elsewhere leaves a layout as it is. -/
theorem layout (layout : g.Layout s (some (c, p)) Q n m) (below : c < n)
    (other : ∀ h ∈ l, ∀ i, i = c ∨ n ≤ i ∧ i < m → g.table[i]? ≠ some h) :
    g'.Layout s (some (c, p)) Q n m := by
  have same : ∀ i h, g.table[i]? = some h → i = c ∨ n ≤ i ∧ i < m → g'.core? h = g.core? h :=
    fun i h named inside => keeps.core_named sound named fun member =>
      other h member i inside named
  have here : ∀ {i : Nat}, (∃ q, some (c, p) = some (i, q)) → i = c := by
    rintro i ⟨q, eq⟩
    cases eq
    rfl
  refine layout.mono (by simpa [Spot.Below] using below) keeps.table ?_ ?_
  · intro i h named inside _
    exact same i h named (inside.imp_left here)
  · intro i q out lines begins
    refine begins.mono keeps.table fun h named => same i h named ?_
    exact (layout.leaves out).imp_left here

end Keeps

end Graph

namespace Builder

open Flowgraph.Graph (Keeps)

variable {b b' b₁ b₂ : Builder} {x : Block} {c : Nat} {p : List String} {s : Statement}
  {P Q : Spot} {grow : Build Unit}

/-- Growing a statement keeps the scopes, and of the blocks it changes only the current one. -/
structure Grows (b b' : Builder) : Prop where
  scopes : b'.scopes = b.scopes
  keeps : Keeps [b.current] b.graph b'.graph
  begins : ∀ i lines, b.graph.table[i]? = some b.current → b.graph.Begins i lines →
    b'.graph.Begins i lines
  current : b'.current = b.current ∨ b.graph.arena.size ≤ b'.current

/-- The computation grows the statement: it does nothing at a sealed block, and at an open block
it ends well and lays the statement out. -/
structure Lays (grow : Build Unit) (s : Statement) : Prop where
  stopped : ∀ b : Builder, b.Stopped → grow b = .ok () b
  opened : ∀ (b : Builder) (c : Nat) (p : List String), b.Sound → b.At (some (c, p)) →
    ∃ b' Q, grow b = .ok () b' ∧ b'.Sound ∧ b'.At Q ∧ b.Grows b' ∧
      b'.graph.Layout s (some (c, p)) Q b.graph.table.length b'.graph.table.length

theorem Grows.refl (b : Builder) : b.Grows b :=
  ⟨rfl, .refl _, fun _ _ _ begins => begins, .inl rfl⟩

theorem Grows.of_begins (sound : b.Sound) (at_ : b.At (some (c, p)))
    (scopes : b'.scopes = b.scopes) (keeps : Keeps [b.current] b.graph b'.graph)
    (begins : b'.graph.Begins c p)
    (current : b'.current = b.current ∨ b.graph.arena.size ≤ b'.current) : b.Grows b' := by
  refine ⟨scopes, keeps, ?_, current⟩
  intro i lines named earlier
  obtain rfl := sound.graph.number_unique named (at_.named sound)
  have known : b.graph.core? b.current = _ := at_
  obtain ⟨h, x, named', core, starts⟩ := earlier
  obtain rfl := Option.some.inj (named.symm.trans named')
  obtain rfl := Option.some.inj (known.symm.trans core)
  obtain ⟨h, x, named', core, longer⟩ := begins
  exact ⟨h, x, named', core, starts.trans longer⟩

theorem Grows.trans (first : b.Grows b₁) (sound₁ : b₁.Sound) (second : b₁.Grows b₂) :
    b.Grows b₂ where
  scopes := second.scopes.trans first.scopes
  keeps := first.keeps.trans second.keeps fun h member known => by
    obtain rfl := List.mem_singleton.1 member
    have := first.current
    exact List.mem_singleton.2 (by omega)
  begins i lines named begins := by
    have begins₁ := first.begins i lines named begins
    have named₁ := first.keeps.named named
    by_cases same : b₁.current = b.current
    · exact second.begins i lines (same ▸ named₁) begins₁
    · refine second.keeps.begins sound₁.graph begins₁ fun h member named₂ => same ?_
      rw [List.mem_singleton.1 member] at named₂
      exact Option.some.inj (named₂.symm.trans named₁)
  current := by
    have := first.current
    have := second.current
    have := first.keeps.size
    omega

theorem At.begins (sound : b.Sound) (at_ : b.At (some (c, p))) : b.graph.Begins c p :=
  ⟨b.current, _, at_.named sound, at_, List.prefix_rfl⟩

/-- The block in which control leaves an arm, as seen when the end of the scope has its number
and the block itself was kept. -/
theorem At.joins (sound : b.Sound) (at_ : b.At Q) {l : List Nat} {g : Graph} {k : Nat}
    (keeps : Keeps l b.graph g) (other : b.current ∉ l) (stop : g.table[k]? = some b.fallthrough) :
    g.Joins Q (some k) := by
  intro i q out
  subst out
  have known : b.graph.core? b.current = _ := at_
  exact ⟨b.current, _, keeps.named (at_.named sound), keeps.lookup known other, .goes stop⟩

/-! ## Statements without a scope -/

/-- Fragments that are added at a spot move it. -/
theorem append_spec (sound : b.Sound) (at_ : b.At (some (c, p))) (fragments : List String) :
    ∃ b', appendAll fragments b = .ok () b' ∧ b'.Sound ∧ b'.At (some (c, p ++ fragments)) ∧
      b.Grows b' ∧ b'.graph.table = b.graph.table := by
  obtain ⟨b', run, sound', known, scopes, current, table, -, keeps⟩ :=
    appendAll_spec sound at_ rfl rfl fragments
  have fallthrough : b'.fallthrough = b.fallthrough := by simp [fallthrough, scopes]
  have at' : b'.At (some (c, p ++ fragments)) := by
    show b'.graph.core? b'.current = _
    rw [current, known, fallthrough]
    rfl
  refine ⟨b', run, sound', at', .of_begins sound at_ scopes keeps ?_ (.inl current), table⟩
  exact (at'.begins sound').shorter

theorem lays_simple (tokens : List String) (location : Option Location) :
    Lays (appendAll (Fragment.statement tokens)) (.simple tokens location) where
  stopped b stopped := appendAll_of_stopped stopped _
  opened b c p sound at_ := by
    obtain ⟨b', run, sound', at', grows, table⟩ :=
      append_spec sound at_ (Fragment.statement tokens)
    refine ⟨b', _, run, sound', at', grows, ?_⟩
    rw [table]
    exact .simple (at'.begins sound')

theorem lays_ret (tokens : List String) (location : Option Location) :
    Lays (do appendAll (Fragment.statement tokens); sealToExit) (.ret tokens location) where
  stopped b stopped := by
    rw [bind_ok (appendAll_of_stopped stopped _), sealToExit_of_stopped stopped]
  opened b c p sound at_ := by
    obtain ⟨b₁, run₁, sound₁, at₁, grows₁, table₁⟩ :=
      append_spec sound at_ (Fragment.statement tokens)
    obtain ⟨b', run, sound', stopped, scopes, current, table, keeps, core⟩ :=
      sealToExit_spec sound₁ at₁
    have ends : b'.graph.Has c (p ++ Fragment.statement tokens) .returns :=
      ⟨_, _, keeps.named (at₁.named sound₁), core, .returns⟩
    have grows : b₁.Grows b' :=
      .of_begins sound₁ at₁ scopes keeps ends.begins (.inl current)
    refine ⟨b', none, (bind_ok run₁).trans run, sound', stopped, grows₁.trans sound₁ grows, ?_⟩
    rw [table, table₁]
    exact .ret ends

theorem lays_nil (location : Option Location) :
    Lays (Statement.growAll []) (.sequence [] location) where
  stopped _ _ := rfl
  opened b _ _ sound at_ := ⟨b, _, rfl, sound, at_, .refl b, .nil⟩

theorem lays_cons {location : Option Location} {rest : List Statement} {growRest : Build Unit}
    (first : Lays grow s) (second : Lays growRest (.sequence rest location)) :
    Lays (do grow; growRest) (.sequence (s :: rest) location) where
  stopped b stopped := by
    rw [bind_ok (first.stopped b stopped), second.stopped b stopped]
  opened b c p sound at_ := by
    obtain ⟨b₁, Q, run₁, sound₁, at₁, grows₁, layout₁⟩ := first.opened b c p sound at_
    match Q with
    | none =>
      exact ⟨b₁, none, (bind_ok run₁).trans (second.stopped b₁ at₁), sound₁, at₁, grows₁,
        .cons layout₁ .skip⟩
    | some (q, p₁) =>
      obtain ⟨b₂, R, run₂, sound₂, at₂, grows₂, layout₂⟩ := second.opened b₁ q p₁ sound₁ at₁
      refine ⟨b₂, R, (bind_ok run₁).trans run₂, sound₂, at₂, grows₁.trans sound₁ grows₂,
        .cons (layout₁.mono ?_ grows₂.keeps.table ?_ ?_) layout₂⟩
      · intro i p eq
        cases eq
        exact (List.getElem?_eq_some_iff.1 (at_.named sound)).1
      · intro i h named inside other
        refine grows₂.keeps.core_named sound₁.graph named fun member => other p₁ ?_
        rw [List.mem_singleton.1 member] at named
        rw [sound₁.graph.number_unique named (at₁.named sound₁)]
      · intro i p out lines begins
        cases out
        exact grows₂.begins q lines (at₁.named sound₁) begins

/-! ## Branches -/

/-- An arm of an `if` is grown behind `b`, at a new block.  The branching block, in which the scope
began, is `x` by then. -/
structure Armed (b b' : Builder) (scope : Scope) (x : Block) (s : Statement) (Q : Spot) : Prop where
  sound : b'.Sound
  at_ : b'.At Q
  scopes : b'.scopes = b.scopes
  current : b.graph.arena.size ≤ b'.current
  keeps : Keeps [scope.start] b.graph b'.graph
  first : b'.graph.table[b.graph.table.length]? = some b.graph.arena.size
  core : b'.graph.core? scope.start = some x
  layout : b'.graph.Layout s (some (b.graph.table.length, [])) Q (b.graph.table.length + 1)
    b'.graph.table.length

/-- The builder goes back to the branching block, and the arm is grown at a new block, which the
branching block notes. -/
theorem arm_spec {scope : Scope} {rest : List Scope} (sound : b.Sound)
    (scopes : b.scopes = scope :: rest) (known : b.graph.core? scope.start = some x)
    (body : x.kind = .body) (unsealed : x.sealed = false) (lays : Lays grow s)
    {record : Nat → Build Unit} (note : Nat → Block → Block)
    (noted : ∀ {b : Builder} {h : Nat}, h < b.graph.arena.size →
      record h b = .ok () { b with graph := b.graph.revise h (note b.current) })
    (quiet : ∀ t, Block.Quiet (note t)) :
    ∃ b₁ b₂ b₃ b' Q, rewind b = .ok () b₁ ∧ b₁.current = scope.start ∧ advance b₁ = .ok true b₂ ∧
      record scope.start b₂ = .ok () b₃ ∧ grow b₃ = .ok () b' ∧
      Armed b b' scope (note b.graph.arena.size
        ((x.dropSuccessor scope.stop).addSuccessor b.graph.arena.size)) s Q := by
  have here : scope.start < b.graph.arena.size := Graph.core?_isSome_iff.1 (by simp [known])
  obtain ⟨b₁, run₁, sound₁, graph₁, scopes₁, current₁⟩ := rewind_spec sound scopes
  have fallthrough₁ : b₁.fallthrough = scope.stop := by simp [fallthrough, scopes₁, scopes]
  have known₁ : b₁.graph.core? b₁.current = some x := by rw [graph₁, current₁, known]
  obtain ⟨b₂, run₂, sound₂, at₂, scopes₂, current₂, table₂, size₂, keeps₂, core₂⟩ :=
    advance_spec sound₁ known₁ body unsealed
  rw [graph₁] at at₂ current₂ table₂ size₂ keeps₂ core₂
  rw [current₁] at keeps₂ core₂
  rw [fallthrough₁] at core₂
  have run₃ := noted (b := b₂) (h := scope.start) (by omega)
  have sound₃ := sound₂.revise (sound.graph.inside known body) (quiet b₂.current)
  have keeps₃ := Graph.keeps_revise (g := b₂.graph) (h := scope.start) (quiet b₂.current).core
  have core₃ := Graph.core?_revise (g := b₂.graph) (h := scope.start) (quiet b₂.current).core
  have at₃ : ({ b₂ with graph := b₂.graph.revise scope.start (note b₂.current) } : Builder).At
      (some (b.graph.table.length, [])) := by
    refine (core₃ _).trans ?_
    rw [if_neg (show scope.start ≠ b₂.current by omega)]
    exact at₂
  obtain ⟨b', Q, run', sound', at', grows, layout⟩ := lays.opened _ _ _ sound₃ at₃
  have other : scope.start ∉ [b₂.current] := by
    rw [List.mem_singleton]
    omega
  refine ⟨b₁, b₂, _, b', Q, run₁, current₁, run₂, run₃, run', sound', at',
    grows.scopes.trans (scopes₂.trans scopes₁), ?_, ?_, ?_, ?_, ?_⟩
  · have after : b'.current = b₂.current ∨ _ := grows.current
    rw [Graph.size_revise] at after
    omega
  · refine (keeps₂.trans keeps₃ (by simp)).trans grows.keeps ?_
    simp only [current₂, List.mem_singleton, forall_eq]
    omega
  · refine grows.keeps.named ?_
    rw [Graph.table_revise, table₂, List.getElem?_append_right (Nat.le_refl _)]
    simp
  · rw [grows.keeps.core _ (by simp; omega) other, core₃, if_pos rfl, core₂, current₂]
    rfl
  · rw [Graph.table_revise, table₂, List.length_append] at layout
    exact layout

/-- An arm stays when only old blocks are changed that have no number or an older one, and control
goes on from it at the end of the scope. -/
theorem Armed.kept {scope : Scope} {rest : List Scope} {l : List Nat} {g : Graph} {k : Nat}
    (armed : Armed b b' scope x s Q) (scopes : b.scopes = scope :: rest)
    (keeps : Keeps l b'.graph g) (known : ∀ h ∈ l, h < b.graph.arena.size)
    (older : ∀ h ∈ l, ∀ i, b.graph.table.length ≤ i → b'.graph.table[i]? ≠ some h)
    (stop : g.table[k]? = some scope.stop) :
    g.Layout s (some (b.graph.table.length, [])) Q (b.graph.table.length + 1)
      b'.graph.table.length ∧ g.Joins Q (some k) := by
  have fallthrough : b'.fallthrough = scope.stop := by simp [fallthrough, armed.scopes, scopes]
  constructor
  · exact keeps.layout armed.sound.graph armed.layout (Nat.lt_succ_self _)
      fun h member i inside => older h member i (by omega)
  · refine armed.at_.joins armed.sound keeps (fun member => ?_) (by rwa [fallthrough])
    have new := armed.current
    have old := known _ member
    omega

/-- An `if` is grown behind `b`: its second arm starts at block `m`, and the arms meet again at
block `r`. -/
structure Branched (b b' : Builder) (c : Nat) (p : List String) (s t : Statement) (Q Q' : Spot)
    (m r : Nat) : Prop where
  sound : b'.Sound
  at_ : b'.At (some (r, []))
  grows : b.Grows b'
  table : b'.graph.table.length = r + 1
  ends : b'.graph.Has c p (.branches (some b.graph.table.length) (some m))
  consequent : b'.graph.Layout s (some (b.graph.table.length, [])) Q (b.graph.table.length + 1) m ∧
    b'.graph.Joins Q (some r)
  alternate : b'.graph.Layout t (some (m, [])) Q' (m + 1) r ∧ b'.graph.Joins Q' (some r)

theorem withBranch_run {body : Build Unit} {b₃ : Builder} {resumed : Bool}
    (opened : openBranch b = .ok true b₁) (run : body b₁ = .ok () b₂)
    (closed : close b₂ = .ok resumed b₃) : withBranch body b = .ok true b₃ := by
  rw [withBranch, bind_ok opened, if_pos rfl, bind_ok ((closing_run run).trans closed), pure_run]

/-- Both arms of an `if` are grown behind the branching block, and meet again. -/
theorem branch_spec {consequent alternate : Statement} {growElse : Build Unit} (sound : b.Sound)
    (at_ : b.At (some (c, p))) (thenArm : Lays grow consequent)
    (elseArm : Lays growElse alternate) :
    ∃ b' Q Q' m r, withBranch (do
        rewind
        let branching ← currentHandle
        let _ ← advance
        recordThen branching
        grow
        rewind
        let _ ← advance
        recordElse branching
        growElse) b = .ok true b' ∧ Branched b b' c p consequent alternate Q Q' m r := by
  have here := current_lt at_
  -- The scope ends at a block that gets no number before both arms are grown.
  obtain ⟨b₁, run₁, sound₁, join₁, scopes₁, -, table₁, size₁, keeps₁, core₁⟩ :=
    openBranch_spec sound at_
  obtain ⟨b₂, b₃, b₄, b₅, Q, run₂, current₂, run₃, run₄, run₅, first⟩ :=
    arm_spec sound₁ scopes₁ core₁ rfl rfl thenArm
      (fun t x => { x with thenTarget := some t }) recordThen_run
      fun _ => ⟨fun _ => rfl, fun _ => rfl, fun _ => rfl, fun _ => rfl, fun _ => rfl⟩
  have scopes₅ := first.scopes.trans scopes₁
  obtain ⟨b₆, b₇, b₈, b₉, Q', run₆, current₆, run₇, run₈, run₉, second⟩ :=
    arm_spec first.sound scopes₅ first.core rfl rfl elseArm
      (fun t x => { x with elseTarget := some t }) recordElse_run
      fun _ => ⟨fun _ => rfl, fun _ => rfl, fun _ => rfl, fun _ => rfl, fun _ => rfl⟩
  have scopes₉ := second.scopes.trans scopes₅
  have join₅ := first.keeps.lookup join₁ (by simp; omega)
  have join₉ := second.keeps.lookup join₅ (by simp; omega)
  obtain ⟨b', run', sound', scopes', current', table', size', keeps', core'⟩ :=
    close_branch_spec second.sound scopes₉ join₉ rfl
  dsimp only at run' current' table' keeps' core'
  have size₅ := first.keeps.size
  have size₉ := second.keeps.size
  have named₅ := first.keeps.named (keeps₁.named (at_.named sound))
  have old : c < b.graph.table.length := (List.getElem?_eq_some_iff.1 (at_.named sound)).1
  have stop : b'.graph.table[b₉.graph.table.length]? = some b.graph.arena.size := by
    simp [table']
  have ends : b'.graph.Has c p
      (.branches (some b₁.graph.table.length) (some b₅.graph.table.length)) := by
    refine ⟨b.current, .branches b₁.graph.arena.size b₅.graph.arena.size,
      keeps'.named (second.keeps.named named₅), ?_, .branches ?_ ?_⟩
    · have apart : b.graph.arena.size ≠ b₁.graph.arena.size := by omega
      refine (keeps'.lookup second.core (by simp; omega)).trans ?_
      simp [Ending.block, Ending.successors, Block.dropSuccessor, Block.addSuccessor,
        OrderedSet.erase_singleton_of_ne apart]
    · exact keeps'.named (second.keeps.named first.first)
    · exact keeps'.named second.first
  -- Behind an arm, the branching block and the end of the scope are all that changes.
  have fromThen : Keeps [b.current, b.graph.arena.size] b₅.graph b'.graph :=
    (second.keeps.weaken (by simp)).trans keeps' (by simp)
  have older₅ : ∀ h ∈ [b.current, b.graph.arena.size], ∀ i, b₁.graph.table.length ≤ i →
      b₅.graph.table[i]? ≠ some h := by
    intro h member i later named
    rw [table₁] at later
    obtain rfl | rfl : h = b.current ∨ h = b.graph.arena.size := by simpa using member
    · have := first.sound.graph.number_unique named named₅
      omega
    · simp [first.sound.graph.numbers, Graph.number?, join₅, Ending.block] at named
  have older₉ : ∀ h ∈ [b.graph.arena.size], ∀ i, b₅.graph.table.length ≤ i →
      b₉.graph.table[i]? ≠ some h := by
    intro h member i _ named
    obtain rfl : h = b.graph.arena.size := by simpa using member
    simp [second.sound.graph.numbers, Graph.number?, join₉, Ending.block] at named
  have consequent := first.kept scopes₁ fromThen (by simp; omega) older₅ stop
  have alternate := second.kept scopes₅ keeps' (by simp; omega) older₉ stop
  rw [table₁] at ends consequent
  refine ⟨b', Q, Q', b₅.graph.table.length, b₉.graph.table.length, withBranch_run run₁ ?_ run',
    sound', ?_, .of_begins sound at_ scopes' ?_ ends.begins (.inr (by omega)), by simp [table'],
    ends, consequent, alternate⟩
  · rw [← current₂] at run₄ run₈
    rw [bind_ok run₂, bind_ok (show currentHandle b₂ = .ok b₂.current b₂ from rfl),
      bind_ok run₃, bind_ok run₄, bind_ok run₅, bind_ok run₆, bind_ok run₇, bind_ok run₈, run₉]
  · show b'.graph.core? b'.current = _
    have fallthrough' : b'.fallthrough = b.fallthrough := by simp [fallthrough, scopes']
    rw [current', core', fallthrough']
    rfl
  · refine ((keeps₁.trans first.keeps ?_).trans second.keeps ?_).trans keeps' ?_ <;> simp

theorem lays_branch {condition : List String} {consequent : Statement}
    {alternate : Option Statement} (location : Option Location)
    (thenArm : Lays (Statement.grow consequent) consequent)
    (elseArm : Lays (Statement.growOption alternate) (alternate.getD (.sequence [] none))) :
    Lays (Statement.grow (.branch condition consequent alternate location))
      (.branch condition consequent alternate location) where
  stopped b stopped := by
    rw [Statement.grow, bind_ok (appendAll_of_stopped stopped _),
      bind_ok (withBranch_of_stopped stopped _), pure_run]
  opened b c p sound at_ := by
    obtain ⟨b₁, run₁, sound₁, at₁, grows₁, table₁⟩ :=
      append_spec sound at_ (Fragment.ifHeader condition)
    obtain ⟨b', Q, Q', m, r, run, branched⟩ := branch_spec sound₁ at₁ thenArm elseArm
    have ends := branched.ends
    obtain ⟨layout, meets⟩ := branched.consequent
    obtain ⟨layout', meets'⟩ := branched.alternate
    rw [table₁] at ends layout
    refine ⟨b', _, ?_, branched.sound, branched.at_, grows₁.trans sound₁ branched.grows, ?_⟩
    · rw [Statement.grow, bind_ok run₁, bind_ok run, pure_run]
    · rw [branched.table]
      exact .branch ends layout meets layout' meets'

/-! ## Loops -/

/-- The header of a loop is grown behind `b`, and the builder stands in the first block inside. -/
structure EntersLoop (b b' : Builder) (c : Nat) (p header : List String) : Prop where
  sound : b'.Sound
  at_ : b'.At (some (b.graph.table.length + 1, []))
  scopes : b'.scopes = ⟨b.graph.arena.size, b.graph.arena.size⟩ :: b.scopes
  current : b'.current = b.graph.arena.size + 1
  table : b'.graph.table = b.graph.table ++ [b.graph.arena.size, b.graph.arena.size + 1]
  keeps : Keeps [b.current] b.graph b'.graph
  ends : b'.graph.core? b.current = some ((Ending.goes b.graph.arena.size).block (some c) p)
  header : b'.graph.core? b.graph.arena.size = some
    (((((Ending.goes b.fallthrough).block (some b.graph.table.length) []).addLines
      header).dropSuccessor b.graph.arena.size).addSuccessor (b.graph.arena.size + 1))

theorem enter_spec (sound : b.Sound) (at_ : b.At (some (c, p))) (header : List String) :
    ∃ b₁ b₂ b', openLoop b = .ok true b₁ ∧ appendAll header b₁ = .ok () b₂ ∧
      advance b₂ = .ok true b' ∧ EntersLoop b b' c p header := by
  have here := current_lt at_
  obtain ⟨b₁, run₁, sound₁, header₁, scopes₁, current₁, table₁, size₁, keeps₁, core₁⟩ :=
    openLoop_spec sound at_
  rw [← current₁] at header₁
  obtain ⟨b₂, run₂, sound₂, header₂, scopes₂, current₂, table₂, size₂, keeps₂⟩ :=
    appendAll_spec sound₁ header₁ rfl rfl header
  rw [← current₂] at header₂
  obtain ⟨b', run', sound', at', scopes', current', table', size', keeps', core'⟩ :=
    advance_spec sound₂ header₂ rfl rfl
  have fallthrough₂ : b₂.fallthrough = b.graph.arena.size := by
    simp [fallthrough, scopes₂, scopes₁]
  have current₂ : b₂.current = b.graph.arena.size := current₂.trans current₁
  have size₂ : b₂.graph.arena.size = b.graph.arena.size + 1 := size₂.trans size₁
  rw [table₂, table₁] at at' table'
  rw [fallthrough₂, current₂, size₂] at core'
  rw [current₂] at keeps'
  rw [current₁] at keeps₂
  have inside : Keeps [b.graph.arena.size] b₁.graph b'.graph :=
    keeps₂.trans keeps' fun h member _ => member
  refine ⟨b₁, b₂, b', run₁, run₂, run', sound', by simpa using at',
    scopes'.trans (scopes₂.trans scopes₁), by omega, ?_, keeps₁.trans inside (by simp), ?_, core'⟩
  · rw [table', size₂, List.append_assoc]
    rfl
  · exact inside.lookup core₁ (by simp; omega)

/-- The loop with the header `h`, which is `x`, is left behind `b`, and control goes on at `b'`. -/
structure LeavesLoop (b b' : Builder) (h : Nat) (x : Block) : Prop where
  sound : b'.Sound
  at_ : b'.At (some (b.graph.table.length, []))
  scopes : b.scopes = ⟨h, h⟩ :: b'.scopes
  current : b'.current = b.graph.arena.size
  table : b'.graph.table = b.graph.table ++ [b.graph.arena.size]
  keeps : Keeps [h] b.graph b'.graph
  header : b'.graph.core? h = some
    { (x.dropSuccessor b'.fallthrough).addSuccessor b.graph.arena.size with
      loopExit := some b.graph.arena.size }

theorem leave_spec {h i : Nat} {rest : List Scope} (sound : b.Sound)
    (scopes : b.scopes = ⟨h, h⟩ :: rest) (known : b.graph.core? h = some x) (body : x.kind = .body)
    (unsealed : x.sealed = false) (id : x.id = some i) :
    ∃ b₁ b₂ b', close b = .ok (!x.sealed) b₁ ∧ b₁.current = h ∧ advance b₁ = .ok true b₂ ∧
      recordLoopExit h b₂ = .ok () b' ∧ LeavesLoop b b' h x := by
  have here : h < b.graph.arena.size := Graph.core?_isSome_iff.1 (by simp [known])
  obtain ⟨b₁, run₁, sound₁, scopes₁, current₁, graph₁⟩ := close_loop_spec sound scopes known id
  have current₁ : b₁.current = h := current₁
  have known₁ : b₁.graph.core? b₁.current = some x := by rw [graph₁, current₁, known]
  obtain ⟨b₂, run₂, sound₂, at₂, scopes₂, current₂, table₂, size₂, keeps₂, core₂⟩ :=
    advance_spec sound₁ known₁ body unsealed
  rw [graph₁] at at₂ current₂ table₂ size₂ keeps₂ core₂
  rw [current₁] at keeps₂ core₂
  have fallthrough₂ : b₂.fallthrough = b₁.fallthrough := by simp [fallthrough, scopes₂]
  -- Noting where control goes on changes only the header.
  have core := Graph.core?_revise (g := b₂.graph) (h := h)
    (f := fun x => { x with loopExit := some b₂.current }) fun _ => rfl
  refine ⟨b₁, b₂, _, run₁, current₁, run₂, recordLoopExit_run (by omega),
    sound₂.revise (sound.graph.inside known body)
      ⟨fun _ => rfl, fun _ => rfl, fun _ => rfl, fun _ => rfl, fun _ => rfl⟩,
    ?_, ?_, current₂, table₂, keeps₂.trans (Graph.keeps_revise fun _ => rfl) (by simp), ?_⟩
  · refine (core _).trans ?_
    rw [if_neg (show h ≠ b₂.current by omega)]
    exact at₂
  · rw [scopes, ← scopes₁, ← scopes₂]
  · rw [core, if_pos rfl, core₂, ← fallthrough₂, current₂]
    rfl

/-- A loop is grown behind `b`: its inside up to `b₂`, and control goes on at `b'`. -/
structure Looped (b b₂ b' : Builder) (c : Nat) (p header : List String) : Prop where
  sound : b'.Sound
  at_ : b'.At (some (b₂.graph.table.length, []))
  scopes : b'.scopes = b.scopes
  current : b.graph.arena.size ≤ b'.current
  keeps : Keeps [b.current] b.graph b'.graph
  table : b'.graph.table.length = b₂.graph.table.length + 1
  ends : b'.graph.Has c p (.goes (some b.graph.table.length))
  loops : b'.graph.Has b.graph.table.length header
    (.loops (some (b.graph.table.length + 1)) (some b₂.graph.table.length))
  /-- What the inside leads back to is the header, which is all that changes afterwards. -/
  header : b₂.graph.table[b.graph.table.length]? = some b₂.fallthrough
  after : Keeps [b₂.fallthrough] b₂.graph b'.graph

theorem loop_spec (sound : b.Sound) (at_ : b.At (some (c, p))) (header : List String)
    (inner : Build Unit) {R : Builder → Builder → Prop}
    (run : ∀ b₁ : Builder, b₁.Sound → b₁.At (some (b.graph.table.length + 1, [])) →
      b₁.graph.table.length = b.graph.table.length + 2 → b₁.fallthrough < b₁.current →
      ∃ b₂, inner b₁ = .ok () b₂ ∧ b₂.Sound ∧ b₂.scopes = b₁.scopes ∧
        Keeps [b₁.current] b₁.graph b₂.graph ∧ R b₁ b₂) :
    ∃ b₁ b₂ b', (do
        let resumed ← withLoop do
          appendAll header
          let _ ← advance
          inner
        if resumed then leaveLoop : Build Unit) b = .ok () b' ∧
      R b₁ b₂ ∧ b₂.Sound ∧ Looped b b₂ b' c p header := by
  have here := current_lt at_
  have stop := sound.fallthrough_lt
  obtain ⟨b₁, b₂, b₃, run₁, run₂, run₃, enters⟩ := enter_spec sound at_ header
  have fallthrough₃ : b₃.fallthrough = b.graph.arena.size := by simp [fallthrough, enters.scopes]
  have current₃ := enters.current
  obtain ⟨b₄, run₄, sound₄, scopes₄, keeps₄, holds⟩ :=
    run b₃ enters.sound enters.at_ (by simp [enters.table]) (by omega)
  have scopes₄ := scopes₄.trans enters.scopes
  have fallthrough₄ : b₄.fallthrough = b.graph.arena.size := by simp [fallthrough, scopes₄]
  have header₄ := keeps₄.lookup enters.header (by simp; omega)
  obtain ⟨b₅, b₆, b', run₅, current₅, run₆, run', leaves⟩ :=
    leave_spec sound₄ scopes₄ header₄ rfl rfl rfl
  have scopes' : b'.scopes = b.scopes := (List.cons.inj (leaves.scopes.symm.trans scopes₄)).2
  have fallthrough' : b'.fallthrough = b.fallthrough := by simp [fallthrough, scopes']
  have current' := leaves.current
  have size₄ : b.graph.arena.size ≤ b₄.graph.arena.size :=
    Nat.le_trans enters.keeps.size keeps₄.size
  have after := leaves.keeps
  have named₄ : b₄.graph.table[b.graph.table.length]? = some b.graph.arena.size :=
    keeps₄.named (by simp [enters.table])
  have first₄ : b₄.graph.table[b.graph.table.length + 1]? = some (b.graph.arena.size + 1) :=
    keeps₄.named (by simp [enters.table])
  have ends : b'.graph.Has c p (.goes (some b.graph.table.length)) := by
    have named := keeps₄.named (enters.keeps.named (at_.named sound))
    refine ⟨b.current, .goes b.graph.arena.size, after.named named, ?_, .goes (after.named named₄)⟩
    refine after.lookup (keeps₄.lookup enters.ends ?_) ?_ <;> simp <;> omega
  have loops : b'.graph.Has b.graph.table.length header
      (.loops (some (b.graph.table.length + 1)) (some b₄.graph.table.length)) := by
    refine ⟨b.graph.arena.size, .loops (b.graph.arena.size + 1) b₄.graph.arena.size,
      after.named named₄, ?_, .loops (after.named first₄) (by simp [Graph.Place, leaves.table])⟩
    have new : b.graph.arena.size ≠ b.fallthrough := by omega
    have apart : b.fallthrough ≠ b.graph.arena.size + 1 := by omega
    rw [leaves.header, fallthrough']
    simp [Ending.block, Ending.successors, Block.dropSuccessor, Block.addSuccessor,
      Block.addLines, OrderedSet.erase_singleton_of_ne new,
      OrderedSet.erase_insert_singleton apart]
  refine ⟨b₃, b₄, b', ?_, holds, sound₄, leaves.sound, leaves.at_, scopes', by omega, ?_,
    by simp [leaves.table], ends, loops, ?_, ?_⟩
  · have body : (do
        appendAll header
        let _ ← advance
        inner : Build Unit) b₁ = .ok () b₄ := by
      rw [bind_ok run₂, bind_ok run₃, run₄]
    have scope : withLoop (do
        appendAll header
        let _ ← advance
        inner) b = .ok true b₅ := by
      rw [withLoop, bind_ok run₁, if_pos rfl, closing_run body, run₅]
      rfl
    rw [← current₅] at run'
    rw [bind_ok scope, if_pos rfl, leaveLoop,
      bind_ok (show currentHandle b₅ = .ok b₅.current b₅ from rfl), bind_ok run₆, run']
  · refine (enters.keeps.trans keeps₄ ?_).trans after ?_
    · simp
      omega
    · simp
  · rw [fallthrough₄, named₄]
  · rw [fallthrough₄]
    exact after

theorem loop_of_stopped (stopped : b.Stopped) (inner : Build Unit) :
    (do
      let resumed ← withLoop inner
      if resumed then leaveLoop : Build Unit) b = .ok () b := by
  rw [bind_ok (withLoop_of_stopped stopped inner)]
  rfl

theorem Looped.grows {header : List String} (sound : b.Sound) (at_ : b.At (some (c, p)))
    (looped : Looped b b₂ b' c p header) : b.Grows b' :=
  .of_begins sound at_ looped.scopes looped.keeps looped.ends.begins (.inr looped.current)

/-- The inside of a loop keeps its layout when the loop is left. -/
theorem Looped.inside {header q : List String} (looped : Looped b b₂ b' c q header)
    (sound₂ : b₂.Sound) {i n m : Nat}
    (layout : b₂.graph.Layout s (some (i, p)) Q n m) (low : b.graph.table.length < i)
    (below : i < n) : b'.graph.Layout s (some (i, p)) Q n m := by
  refine looped.after.layout sound₂.graph layout below ?_
  intro h member j inside named
  rw [List.mem_singleton.1 member] at named
  have := sound₂.graph.number_unique named looped.header
  omega

theorem lays_while {condition : List String} {body : Statement} (location : Option Location)
    (lays : Lays (Statement.grow body) body) :
    Lays (Statement.grow (.whileLoop condition body location))
      (.whileLoop condition body location) where
  stopped b stopped := by
    rw [Statement.grow]
    exact loop_of_stopped stopped _
  opened b c p sound at_ := by
    obtain ⟨b₁, b₂, b', run, ⟨Q, ahead, at₂, length, layout⟩, sound₂, looped⟩ :=
      loop_spec sound at_ (Fragment.whileHeader condition) (Statement.grow body)
        (R := fun b₁ b₂ => ∃ Q, b₂.fallthrough < b₂.current ∧ b₂.At Q ∧
          b₁.graph.table.length = b.graph.table.length + 2 ∧
          b₂.graph.Layout body (some (b.graph.table.length + 1, [])) Q b₁.graph.table.length
            b₂.graph.table.length)
        (by
          intro b₁ sound₁ at₁ length ahead
          obtain ⟨b₂, Q, run, sound₂, at₂, grows, layout⟩ := lays.opened b₁ _ _ sound₁ at₁
          have moved := grows.current
          have inside := current_lt at₁
          have fallthrough : b₂.fallthrough = b₁.fallthrough := by
            simp [fallthrough, grows.scopes]
          exact ⟨b₂, run, sound₂, grows.scopes, grows.keeps, Q, by omega, at₂, length, layout⟩)
    have back : b'.graph.Joins Q (some b.graph.table.length) :=
      at₂.joins sound₂ looped.after (by simp; omega) (looped.after.named looped.header)
    rw [length] at layout
    refine ⟨b', _, run, looped.sound, looped.at_, looped.grows sound at_, ?_⟩
    rw [looped.table]
    exact .whileLoop looped.ends looped.loops
      (looped.inside sound₂ layout (by omega) (by omega)) back

/-- The clause of a `for` header is written where the builder stands, if there is one. -/
theorem clause_spec (sound : b.Sound) (known : b.graph.core? b.current = some x)
    (body : x.kind = .body) (unsealed : x.sealed = false) (clause : Option (List String)) :
    ∃ b', (do if let some clause := clause then appendAll (Fragment.clause clause) : Build Unit) b =
        .ok () b' ∧ b'.Sound ∧
      b'.graph.core? b.current = some (x.addLines (clauseLines clause)) ∧
      b'.scopes = b.scopes ∧ b'.current = b.current ∧ b'.graph.table = b.graph.table ∧
      b'.graph.arena.size = b.graph.arena.size ∧ Keeps [b.current] b.graph b'.graph := by
  cases clause with
  | none =>
    refine ⟨b, rfl, sound, ?_, rfl, rfl, rfl, rfl, .refl _⟩
    simp [known, clauseLines, Block.addLines]
  | some clause => exact appendAll_spec sound known body unsealed (Fragment.clause clause)

theorem clause_run {clause : Option (List String)} {next : Build Unit}
    (run : (do if let some clause := clause then appendAll (Fragment.clause clause) : Build Unit)
      b = .ok () b') :
    (do
      if let some clause := clause then appendAll (Fragment.clause clause)
      next) b = next b' := by
  cases clause with
  | none =>
    cases run
    rfl
  | some clause => exact bind_ok run

/-- The inside of a `for` loop: the block for the update is made first, and the body is grown in
front of it. -/
theorem update_spec (update : Option (List String)) {body : Statement} {n : Nat}
    (lays : Lays grow body) (sound : b.Sound) (at_ : b.At (some (n, []))) :
    ∃ b' Q m, (do
        let _ ← withBranch do
          if let some update := update then appendAll (Fragment.clause update)
          rewind
          grow : Build Unit) b = .ok () b' ∧
      b'.Sound ∧ b'.scopes = b.scopes ∧ b.graph.arena.size = b'.current ∧
      Keeps [b.current] b.graph b'.graph ∧ b'.graph.table.length = m + 1 ∧
      b'.graph.Layout body (some (n, [])) Q b.graph.table.length m ∧
      b'.graph.Joins Q (some m) ∧ b'.At (some (m, clauseLines update)) := by
  have here := current_lt at_
  obtain ⟨b₁, run₁, sound₁, update₁, scopes₁, current₁, table₁, size₁, keeps₁, core₁⟩ :=
    openBranch_spec sound at_
  rw [← current₁] at update₁
  obtain ⟨b₂, run₂, sound₂, update₂, scopes₂, current₂, table₂, size₂, keeps₂⟩ :=
    clause_spec sound₁ update₁ rfl rfl update
  obtain ⟨b₃, run₃, sound₃, graph₃, scopes₃, current₃⟩ :=
    rewind_spec sound₂ (scopes₂.trans scopes₁)
  have current₃ : b₃.current = b.current := current₃
  have scopes₃ := scopes₃.trans (scopes₂.trans scopes₁)
  rw [current₁] at keeps₂ update₂
  have at₃ : b₃.At (some (n, [])) := by
    have fallthrough : b₃.fallthrough = b.graph.arena.size := by simp [fallthrough, scopes₃]
    show b₃.graph.core? b₃.current = _
    rw [graph₃, current₃, fallthrough]
    exact keeps₂.lookup core₁ (by simp; omega)
  obtain ⟨b₄, Q, run₄, sound₄, at₄, grows₄, layout₄⟩ := lays.opened b₃ n [] sound₃ at₃
  have keeps₄ := grows₄.keeps
  have moved₄ := grows₄.current
  have scopes₄ := grows₄.scopes.trans scopes₃
  rw [graph₃, table₂, table₁] at layout₄
  rw [graph₃, current₃] at keeps₄ moved₄
  have update₄ := keeps₄.lookup update₂ (by simp; omega)
  obtain ⟨b', run', sound', scopes', current', table', size', keeps', core'⟩ :=
    close_branch_spec sound₄ scopes₄ update₄ rfl
  have current' : b'.current = b.graph.arena.size := current'
  have fallthrough' : b'.fallthrough = b.fallthrough := by simp [fallthrough, scopes']
  have stop : b'.graph.table[b₄.graph.table.length]? = some b.graph.arena.size := by
    simp [table']
  have below : n < b.graph.table.length := (List.getElem?_eq_some_iff.1 (at_.named sound)).1
  refine ⟨b', Q, b₄.graph.table.length, ?_, sound', scopes', current'.symm, ?_, by simp [table'],
    keeps'.layout sound₄.graph layout₄ below ?_, at₄.joins sound₄ keeps' (by simp; omega) ?_, ?_⟩
  · have inner : (do
        if let some update := update then appendAll (Fragment.clause update)
        rewind
        grow : Build Unit) b₁ = .ok () b₄ :=
      (clause_run run₂).trans ((bind_ok run₃).trans run₄)
    rw [bind_ok (withBranch_run run₁ inner run'), pure_run]
  · refine ((keeps₁.trans keeps₂ ?_).trans keeps₄ ?_).trans keeps' ?_ <;> simp
  · intro h member i _ named
    rw [List.mem_singleton.1 member] at named
    simp [sound₄.graph.numbers, Graph.number?, update₄, Ending.block, Block.addLines] at named
  · simpa [fallthrough, scopes₄] using stop
  · show b'.graph.core? b'.current = _
    rw [current', core', fallthrough']
    rfl

theorem lays_for {init : Option (List String)} {condition : List String}
    {update : Option (List String)} {body : Statement} (location : Option Location)
    (lays : Lays (Statement.grow body) body) :
    Lays (Statement.grow (.forLoop init condition update body location))
      (.forLoop init condition update body location) where
  stopped b stopped := by
    unfold Statement.grow
    cases init with
    | none => exact loop_of_stopped stopped _
    | some init => exact (bind_ok (appendAll_of_stopped stopped _)).trans (loop_of_stopped stopped _)
  opened b c p sound at_ := by
    obtain ⟨b₀, run₀, sound₀, at₀, grows₀, table₀⟩ := append_spec sound at_ (clauseLines init)
    obtain ⟨b₁, b₂, b', run, ⟨Q, m, ahead, length₁, length₂, layout, meets, at₂⟩, sound₂, looped⟩ :=
      loop_spec sound₀ at₀ (Fragment.forHeader condition) _
        (R := fun b₁ b₂ => ∃ Q m, b₂.fallthrough < b₂.current ∧
          b₁.graph.table.length = b₀.graph.table.length + 2 ∧ b₂.graph.table.length = m + 1 ∧
          b₂.graph.Layout body (some (b₀.graph.table.length + 1, [])) Q b₁.graph.table.length m ∧
          b₂.graph.Joins Q (some m) ∧ b₂.At (some (m, clauseLines update)))
        (by
          intro b₁ sound₁ at₁ length ahead
          obtain ⟨b₂, Q, m, run, sound₂, scopes, current, keeps, length', layout, meets, at₂⟩ :=
            update_spec update lays sound₁ at₁
          have inside := current_lt at₁
          have fallthrough : b₂.fallthrough = b₁.fallthrough := by simp [fallthrough, scopes]
          exact ⟨b₂, run, sound₂, scopes, keeps, Q, m, by omega, length, length', layout, meets,
            at₂⟩)
    have loops := looped.loops
    rw [length₁] at layout
    rw [length₂] at loops
    have back : b'.graph.Has m (clauseLines update) (.goes (some b₀.graph.table.length)) :=
      at₂.joins sound₂ looped.after (by simp; omega) (looped.after.named looped.header) m _ rfl
    have meets' : b'.graph.Joins Q (some m) := by
      intro i q out
      refine looped.after.has sound₂.graph (meets i q out) fun h member named => ?_
      rw [List.mem_singleton.1 member] at named
      have same := sound₂.graph.number_unique named looped.header
      obtain ⟨_, eq⟩ | new := layout.leaves out
      · cases eq
        omega
      · omega
    refine ⟨b', _, ?_, looped.sound, looped.at_,
      grows₀.trans sound₀ (looped.grows sound₀ at₀), ?_⟩
    · unfold Statement.grow
      cases init with
      | none =>
        cases run₀
        exact run
      | some init => exact (bind_ok run₀).trans run
    · rw [looped.table, length₂, ← table₀]
      exact .forLoop looped.ends loops (looped.inside sound₂ layout (by omega) (by omega)) meets'
        back

end Builder

namespace Statement

open Builder

theorem lays_growAll {body : List Statement} (location : Option Location)
    (each : ∀ s ∈ body, Lays s.grow s) : Lays (growAll body) (.sequence body location) := by
  induction body with
  | nil => exact lays_nil location
  | cons s rest ih =>
    have first := each s List.mem_cons_self
    have later := ih fun s member => each s (List.mem_cons_of_mem _ member)
    unfold growAll
    exact lays_cons first later

/-- Growing a statement ends well and lays it out. -/
theorem lays_grow (s : Statement) : Lays s.grow s := by
  induction s using Statement.induction with
  | simple tokens location =>
    unfold grow
    exact lays_simple tokens location
  | sequence body location each =>
    unfold grow
    exact lays_growAll location each
  | branch condition consequent alternate location thenArm elseArm =>
    refine lays_branch location thenArm ?_
    unfold growOption
    cases alternate with
    | none => exact lays_nil none
    | some s => exact elseArm s rfl
  | whileLoop condition body location ih => exact lays_while location ih
  | forLoop init condition update body location ih => exact lays_for location ih
  | ret tokens location =>
    unfold grow
    exact lays_ret tokens location

end Statement

/-! ## The graph of a function -/

/-- The graph is that of the function: it is sound, all its blocks are numbered, and they are
those of the body, which leads to the exit. -/
structure Graph.Draws (g : Graph) (f : SourceFunction) : Prop where
  sound : g.Sound
  numbered : ∀ h, 2 ≤ h → h < g.arena.size → ∃ i : Nat, g.table[i]? = some h
  heading : g.heading = (f.name, Fragment.ofTokens f.returnType, Fragment.ofTokens f.parameters,
    {}, .building)
  layout : ∃ Q, g.Layout f.body (some (0, [])) Q 1 g.table.length ∧ g.Joins Q none

/-- Every function has a graph. -/
theorem SourceFunction.graph_draws (f : SourceFunction) :
    ∃ g, f.graph = .ok g ∧ g.Draws f := by
  have start := Builder.sound_ofSignature f.name (Fragment.ofTokens f.returnType)
    (Fragment.ofTokens f.parameters)
  obtain ⟨b, Q, run, sound, at_, grows, layout⟩ :=
    f.body.lays_grow.opened _ 0 [] start rfl
  have scopes : b.scopes = [] := grows.scopes
  have finished : Builder.finish b = .ok b.graph b :=
    Builder.finish_run (congrArg List.length scopes)
  refine ⟨b.graph, ?_, sound.graph, ?_, grows.keeps.heading, Q, layout, ?_⟩
  · have whole := (bind_ok (f := fun _ => Builder.finish) run).trans finished
    unfold SourceFunction.graph
    dsimp only
    rw [whole]
  · intro h high lt
    cases number : b.graph.number? h with
    | none =>
      obtain ⟨s, member, -⟩ := sound.anonymous h high lt number
      simp [scopes] at member
    | some i => exact ⟨i, (sound.graph.numbers i h).2 number⟩
  · intro i p out
    subst out
    have fallthrough : b.fallthrough = Graph.exit := by simp [Builder.fallthrough, scopes]
    have known : b.graph.core? b.current = _ := at_
    exact ⟨b.current, _, at_.named sound, known, .goes fallthrough⟩

end Flowgraph
