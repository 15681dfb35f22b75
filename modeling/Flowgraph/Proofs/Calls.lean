import Flowgraph.Construct
import Flowgraph.Proofs.Edits
import Flowgraph.Proofs.Endings

/-!
# Calls on a builder

What each call on a builder does when its current block is known, as an equation for the whole
state: calls at an open block come first, then the calls that open and close scopes, then the
calls at a sealed block, which leave everything as it is.
-/

namespace Flowgraph

open Edit

namespace Graph

variable {g : Graph} {c k h : Nat}

theorem revise_revise (f f' : Block → Block) :
    (g.revise h f).revise h f' = g.revise h (f' ∘ f) := by
  have same : (g.arena.modify h f).modify h f' = g.arena.modify h (f' ∘ f) := by
    apply Array.ext_getElem?
    intro i
    simp only [Array.getElem?_modify]
    split <;> simp
  simp [revise, same]

theorem revise_id : g.revise h id = g := by
  have same : g.arena.modify h id = g.arena := by
    apply Array.ext_getElem?
    intro i
    simp [Array.getElem?_modify]
  simp [revise, same]

/-- A graph is given by its blocks and by what it holds besides its arena. -/
theorem eq_of_block? {g g' : Graph} (blocks : ∀ h, g'.block? h = g.block? h)
    (rest : { g' with arena := g.arena } = g) : g' = g := by
  have arena : g'.arena = g.arena := Array.ext_getElem? fun {h} => blocks h
  rw [← rest, ← arena]

/-- The graph in which a new block is spliced into the edge from `c` to `k`. -/
def spliced (g : Graph) (c k : Nat) : Graph :=
  (((g.withBlock .body).withoutEdge c k).withEdge c g.arena.size).withEdge g.arena.size k

@[simp] theorem table_spliced : (g.spliced c k).table = g.table := by
  simp [spliced]

@[simp] theorem size_spliced : (g.spliced c k).arena.size = g.arena.size + 1 := by
  simp [spliced]

theorem core?_spliced (known : c < g.arena.size) (j : Nat) :
    (g.spliced c k).core? j =
      if j = g.arena.size then some ((Ending.goes k).block none [])
      else if j = c then
        (g.core? j).map fun x => (x.dropSuccessor k).addSuccessor g.arena.size
      else g.core? j := by
  simp only [spliced, core?_withEdge, core?_withoutEdge, core?_withBlock]
  by_cases new : j = g.arena.size
  · subst j
    have other : c ≠ g.arena.size := by omega
    simp [other, Block.addSuccessor, Ending.block, Ending.successors]
  · by_cases same : j = c
    · subst j
      have other : g.arena.size ≠ c := by omega
      simp [new, other, Function.comp_def]
    · simp [new, same, Ne.symm new, Ne.symm same]

theorem Mirrored.spliced (mirrored : g.Mirrored) (hc : c < g.arena.size)
    (hk : k < g.arena.size) : (g.spliced c k).Mirrored := by
  refine ((mirrored.withBlock .body).withoutEdge.withEdge ?_ ?_).withEdge ?_ ?_ <;> simp <;> omega

/-- The graph without the edges from block `c` to the blocks of a list. -/
def cut (g : Graph) (c : Nat) (l : List Nat) : Graph := l.foldl (·.withoutEdge c ·) g

theorem cut_cons (l : List Nat) : g.cut c (k :: l) = (g.withoutEdge c k).cut c l := rfl

@[simp] theorem table_cut (l : List Nat) : (g.cut c l).table = g.table := by
  induction l generalizing g with
  | nil => rfl
  | cons k rest ih => rw [cut_cons, ih, table_withoutEdge]

@[simp] theorem size_cut (l : List Nat) : (g.cut c l).arena.size = g.arena.size := by
  induction l generalizing g with
  | nil => rfl
  | cons k rest ih => rw [cut_cons, ih, size_withoutEdge]

theorem cut_run (here : c < g.arena.size) (l : List Nat) (targets : ∀ v ∈ l, v < g.arena.size) :
    (l.forM fun next => disconnect c next) g = .ok () (g.cut c l) := by
  induction l generalizing g with
  | nil => rfl
  | cons k rest ih =>
    have first := disconnect_run here (targets k List.mem_cons_self)
    rw [forM_cons_ok first, cut_cons]
    apply ih
    · rwa [size_withoutEdge]
    · intro v member
      rw [size_withoutEdge]
      exact targets v (List.mem_cons_of_mem k member)

theorem core?_cut (l : List Nat) (j : Nat) :
    (g.cut c l).core? j =
      if j = c then (g.core? j).map fun x =>
        { x with successors := l.foldl OrderedSet.erase x.successors }
      else g.core? j := by
  induction l generalizing g with
  | nil => simp [cut]
  | cons k rest ih =>
    rw [cut_cons, ih, core?_withoutEdge]
    by_cases same : j = c
    · subst same
      simp [Function.comp_def, Block.dropSuccessor]
    · simp [same, Ne.symm same]

theorem Mirrored.cut (mirrored : g.Mirrored) (l : List Nat) : (g.cut c l).Mirrored := by
  induction l generalizing g with
  | nil => exact mirrored
  | cons k rest ih => exact ih mirrored.withoutEdge

/-- The graph in which a return has sealed block `c`, which went to the blocks of a list. -/
def sealing (g : Graph) (c : Nat) (l : List Nat) : Graph :=
  ((g.cut c l).withEdge c exit).revise c fun b => { b with sealed := true }

@[simp] theorem table_sealing (l : List Nat) : (g.sealing c l).table = g.table := by
  simp [sealing]

@[simp] theorem size_sealing (l : List Nat) : (g.sealing c l).arena.size = g.arena.size := by
  simp [sealing]

theorem core?_sealing (l : List Nat) (j : Nat) :
    (g.sealing c l).core? j =
      if j = c then (g.core? j).map fun x =>
        { x with successors := (l.foldl OrderedSet.erase x.successors).insert exit, sealed := true }
      else g.core? j := by
  have flag := core?_revise (g := (g.cut c l).withEdge c exit) (h := c)
    (f := fun b => { b with sealed := true }) (fun _ => rfl) j
  rw [sealing, flag, core?_withEdge, core?_cut]
  by_cases same : j = c
  · simp [same, Function.comp_def, Block.addSuccessor]
  · simp [same, Ne.symm same]

theorem Mirrored.sealing (mirrored : g.Mirrored) (l : List Nat) (hc : c < g.arena.size)
    (he : exit < g.arena.size) : (g.sealing c l).Mirrored := by
  have cut := mirrored.cut (c := c) l
  refine (cut.withEdge ?_ ?_).revise (fun _ => rfl) fun _ => rfl
  · rwa [size_cut]
  · rwa [size_cut]

/-- The graph in which a return has sealed block `c`, which went to `k`. -/
def returned (g : Graph) (c k : Nat) : Graph :=
  ((g.withoutEdge c k).withEdge c exit).revise c fun b => { b with sealed := true }

@[simp] theorem table_returned : (g.returned c k).table = g.table := table_sealing [k]

@[simp] theorem size_returned : (g.returned c k).arena.size = g.arena.size := size_sealing [k]

theorem core?_returned (j : Nat) :
    (g.returned c k).core? j =
      if j = c then (g.core? j).map fun x =>
        { (x.dropSuccessor k).addSuccessor exit with sealed := true }
      else g.core? j :=
  core?_sealing [k] j

/-- The edge of a return is the one that entered the exit last. -/
theorem returned_last (mirrored : g.Mirrored) {x y : Block} (known : g.core? c = some x)
    (leads : x.successors = .singleton k) (inside : c ≠ exit) (found : g.block? exit = some y) :
    ∃ y', (g.returned c k).block? exit = some y' ∧
      y'.predecessors.toList = (y.predecessors.erase c).toList ++ [c] := by
  simp only [returned, withEdge, withoutEdge, block?_revise]
  by_cases same : k = exit
  · simp [same, inside, found, Block.addPredecessor, Block.dropPredecessor,
      OrderedSet.toList_insert]
  · have fresh : c ∉ y.predecessors := by
      intro member
      obtain ⟨x', known', target⟩ := edge_iff_core.1 ((mirrored c exit).2 ⟨y, found, member⟩)
      cases known.symm.trans known'
      rw [leads, OrderedSet.mem_singleton] at target
      exact same target.symm
    -- an `insert` appends only what is not a member yet, hence `fresh`
    have order : (y.predecessors.insert c).toList = y.predecessors.toList ++ [c] := by
      rw [OrderedSet.toList_insert, if_neg fresh]
    simp [same, inside, found, Block.addPredecessor, OrderedSet.erase_of_not_mem fresh, order]

end Graph

namespace Builder

variable {b : Builder} {x : Block}

theorem currentBlock_run (known : b.graph.core? b.current = some x) :
    ∃ y, y.core = x ∧ currentBlock b = .ok y b := by
  obtain ⟨y, found, core⟩ := Graph.core?_eq_some.1 known
  exact ⟨y, core, inspect_ok (Graph.find_eq_ok.2 found)⟩

theorem onGraph_run {α : Type} {edit : Edit Graph α} {a : α} {g : Graph}
    (run : edit b.graph = .ok a g) : onGraph edit b = .ok a { b with graph := g } :=
  onPart_ok run

theorem current_lt (known : b.graph.core? b.current = some x) :
    b.current < b.graph.arena.size :=
  Graph.core?_isSome_iff.1 (by simp [known])

/-! ## At an open block -/

/-- Fragments are added to the current block. -/
def appended (b : Builder) (fragments : List String) : Builder :=
  { b with graph := b.graph.revise b.current (·.addLines fragments) }

theorem core?_appended (fragments : List String) (j : Nat) :
    (b.appended fragments).graph.core? j =
      if b.current = j then (b.graph.core? j).map (·.addLines fragments)
      else b.graph.core? j :=
  Graph.core?_revise (f := (·.addLines fragments)) (fun _ => rfl) j

theorem append_run (known : b.graph.core? b.current = some x) (unsealed : x.sealed = false)
    (text : String) : append text b = .ok true (b.appended [text]) := by
  obtain ⟨y, rfl, found⟩ := currentBlock_run known
  have unsealed : y.sealed = false := unsealed
  rw [append, bind_ok found, unsealed]
  exact bind_ok (onGraph_run (Graph.change_run _ (current_lt known)))

theorem appendAll_run (fragments : List String) :
    ∀ {b : Builder} {x : Block}, b.graph.core? b.current = some x → x.sealed = false →
      appendAll fragments b = .ok () (b.appended fragments) := by
  induction fragments with
  | nil =>
    intro b x known unsealed
    have nothing : (fun y : Block => y.addLines []) = id := by
      funext y
      simp [Block.addLines]
    simp only [appended, nothing, Graph.revise_id]
    rfl
  | cons text rest ih =>
    intro b x known unsealed
    have longer : (b.appended [text]).graph.core? b.current = some (x.addLines [text]) := by
      rw [core?_appended, if_pos rfl, known]
      rfl
    have both : (b.appended [text]).appended rest = b.appended (text :: rest) := by
      simp [appended, Graph.revise_revise, Function.comp_def, Block.addLines]
    have first := discard_ok (append_run known unsealed text)
    rw [← both]
    exact (forM_cons_ok (f := fun text => discard (append text)) first).trans (ih longer unsealed)

/-- A new anonymous block is spliced into the open edge. -/
def spliced (b : Builder) : Builder :=
  { b with
    graph := b.graph.spliced b.current b.fallthrough
    current := b.graph.arena.size }

@[simp] theorem current_spliced : b.spliced.current = b.graph.arena.size := rfl

@[simp] theorem scopes_spliced : b.spliced.scopes = b.scopes := by
  simp [spliced]

theorem splice_run (known : b.graph.core? b.current = some x) (unsealed : x.sealed = false)
    (stop : b.fallthrough < b.graph.arena.size) :
    splice b = .ok (some b.current) b.spliced := by
  obtain ⟨y, rfl, found⟩ := currentBlock_run known
  have here := current_lt known
  have unsealed : y.sealed = false := unsealed
  have drawn : (do
      let block ← Graph.allocate .body
      Graph.disconnect b.current b.fallthrough
      Graph.connect b.current block
      Graph.connect block b.fallthrough
      return block : Edit Graph Nat) b.graph =
      .ok b.graph.arena.size (b.graph.spliced b.current b.fallthrough) := by
    rw [bind_ok (Graph.allocate_run _), bind_ok (Graph.disconnect_run ?_ ?_),
      bind_ok (Graph.connect_run ?_ ?_), bind_ok (Graph.connect_run ?_ ?_)]
    · rfl
    all_goals simp
    all_goals omega
  rw [splice, bind_ok found, unsealed]
  exact bind_ok (onGraph_run drawn)

/-- A new numbered block is spliced into the open edge. -/
def advanced (b : Builder) : Builder :=
  { b.spliced with graph := b.spliced.graph.numbered b.graph.arena.size }

@[simp] theorem current_advanced : b.advanced.current = b.graph.arena.size := rfl

@[simp] theorem scopes_advanced : b.advanced.scopes = b.scopes := by
  simp [advanced]

theorem advance_run (known : b.graph.core? b.current = some x) (unsealed : x.sealed = false)
    (stop : b.fallthrough < b.graph.arena.size) : advance b = .ok true b.advanced := by
  have registered := onGraph_run (b := b.spliced)
    (Graph.register_run (h := b.spliced.current) (by simp [spliced]))
  have handle : currentHandle b.spliced = .ok b.spliced.current b.spliced := rfl
  rw [advance, bind_ok (splice_run known unsealed stop)]
  simp only
  rw [bind_ok handle, bind_ok registered, pure_run]
  rfl

theorem core?_advanced (known : b.current < b.graph.arena.size) (j : Nat) :
    b.advanced.graph.core? j =
      if j = b.graph.arena.size then
        some ((Ending.goes b.fallthrough).block (some b.graph.table.length) [])
      else if j = b.current then (b.graph.core? j).map fun x =>
        (x.dropSuccessor b.fallthrough).addSuccessor b.graph.arena.size
      else b.graph.core? j := by
  simp only [advanced, spliced, Graph.core?_numbered, Graph.core?_spliced known]
  by_cases new : j = b.graph.arena.size
  · subst j
    simp [Ending.block]
  · simp [new, Ne.symm new]

@[simp] theorem table_advanced :
    b.advanced.graph.table = b.graph.table ++ [b.graph.arena.size] := by
  simp [advanced, spliced]

@[simp] theorem size_advanced :
    b.advanced.graph.arena.size = b.graph.arena.size + 1 := by
  simp [advanced, spliced]

theorem recordThen_run {h : Nat} (known : h < b.graph.arena.size) :
    recordThen h b = .ok () { b with
      graph := b.graph.revise h fun x => { x with thenTarget := some b.current } } :=
  onGraph_run (Graph.change_run _ known)

theorem recordElse_run {h : Nat} (known : h < b.graph.arena.size) :
    recordElse h b = .ok () { b with
      graph := b.graph.revise h fun x => { x with elseTarget := some b.current } } :=
  onGraph_run (Graph.change_run _ known)

theorem recordLoopExit_run {h : Nat} (known : h < b.graph.arena.size) :
    recordLoopExit h b = .ok () { b with
      graph := b.graph.revise h fun x => { x with loopExit := some b.current } } :=
  onGraph_run (Graph.change_run _ known)

/-- A return takes the edges of the current block away, wherever they lead. -/
theorem sealToExit_cuts (known : b.graph.core? b.current = some x)
    (targets : ∀ v ∈ x.successors, v < b.graph.arena.size)
    (exit : Graph.exit < b.graph.arena.size) :
    sealToExit b = .ok () { b with
      graph := b.graph.sealing b.current x.successors.toList } := by
  obtain ⟨y, rfl, found⟩ := currentBlock_run known
  have here := current_lt known
  have targets : ∀ v ∈ y.successors.toList, v < b.graph.arena.size := targets
  have drawn : (do
      y.successors.toList.forM fun next => Graph.disconnect b.current next
      Graph.connect b.current Graph.exit
      Graph.change b.current fun x => { x with sealed := true } : Edit Graph Unit) b.graph =
      .ok () (b.graph.sealing b.current y.successors.toList) := by
    rw [bind_ok (Graph.cut_run here _ targets), bind_ok (Graph.connect_run ?_ ?_)]
    · exact Graph.change_run _ (by simpa using here)
    · simpa using here
    · simpa using exit
  rw [sealToExit, bind_ok (show currentHandle b = .ok b.current b from rfl), bind_ok found]
  exact onGraph_run drawn

theorem sealToExit_run {k : Nat} (known : b.graph.core? b.current = some x)
    (leads : x.successors = .singleton k) (stop : k < b.graph.arena.size)
    (exit : Graph.exit < b.graph.arena.size) :
    sealToExit b = .ok () { b with graph := b.graph.returned b.current k } := by
  have targets : ∀ v ∈ x.successors, v < b.graph.arena.size := by
    intro v member
    rw [leads, OrderedSet.mem_singleton] at member
    rwa [member]
  rw [sealToExit_cuts known targets exit, leads]
  rfl

/-! ## Scopes -/

theorem openBranch_run (known : b.graph.core? b.current = some x) (unsealed : x.sealed = false)
    (stop : b.fallthrough < b.graph.arena.size) :
    openBranch b = .ok true {
      graph := b.spliced.graph
      current := b.graph.arena.size
      scopes := ⟨b.current, b.graph.arena.size⟩ :: b.scopes } := by
  rw [openBranch, bind_ok (splice_run known unsealed stop)]
  simp only
  rw [bind_ok (modify_run _ _), pure_run, current_spliced, scopes_spliced]

theorem openLoop_run (known : b.graph.core? b.current = some x) (unsealed : x.sealed = false)
    (stop : b.fallthrough < b.graph.arena.size) :
    openLoop b = .ok true {
      graph := b.advanced.graph
      current := b.graph.arena.size
      scopes := ⟨b.graph.arena.size, b.graph.arena.size⟩ :: b.scopes } := by
  rw [openLoop, bind_ok (advance_run known unsealed stop), if_pos rfl, bind_ok (modify_run _ _),
    pure_run, current_advanced, scopes_advanced]

theorem rewind_run {scope : Scope} {rest : List Scope} (scopes : b.scopes = scope :: rest) :
    rewind b = .ok () { b with current := scope.start } := by
  rw [rewind, bind_ok (get_run b), scopes]
  simp only
  rw [modify_run, scopes]

theorem close_run {scope : Scope} {rest : List Scope} (scopes : b.scopes = scope :: rest)
    (known : b.graph.core? scope.stop = some x) :
    close b = .ok (!x.sealed) { b with
      graph := if x.id.isNone then b.graph.numbered scope.stop else b.graph
      current := scope.stop
      scopes := rest } := by
  -- `close` looks at the block only after it has moved there and dropped the scope
  have known' : ({ b with current := scope.stop, scopes := rest } : Builder).graph.core?
      ({ b with current := scope.stop, scopes := rest } : Builder).current = some x := known
  obtain ⟨y, rfl, found⟩ := currentBlock_run known'
  have registered : onGraph (Graph.register scope.stop)
      { b with current := scope.stop, scopes := rest } =
      .ok b.graph.table.length { b with
        graph := b.graph.numbered scope.stop, current := scope.stop, scopes := rest } :=
    onGraph_run (Graph.register_run (current_lt known'))
  rw [close, bind_ok (get_run b), scopes]
  simp only
  rw [bind_ok (modify_run _ _), bind_ok found]
  have id_core : y.core.id = y.id := rfl
  rw [id_core]
  cases y.id.isNone with
  | true =>
    rw [if_pos rfl, if_pos rfl]
    exact bind_ok registered
  | false => rfl

theorem rewind_of_closed (scopes : b.scopes = []) : rewind b = .error (.nesting .rewind 0) b := by
  rw [rewind, bind_ok (get_run b), scopes]
  rfl

theorem close_of_closed (scopes : b.scopes = []) : close b = .error (.nesting .close 0) b := by
  rw [close, bind_ok (get_run b), scopes]
  rfl

theorem finish_run (closed : b.depth = 0) : finish b = .ok b.graph b := by
  rw [finish, bind_ok (get_run b), if_pos closed, pure_run]

theorem finish_of_open (open_ : b.depth ≠ 0) :
    finish b = .error (.nesting .finish b.depth) b := by
  rw [finish, bind_ok (get_run b), if_neg open_]
  rfl

theorem closing_run {body : Build Unit} {b' : Builder} (run : body b = .ok () b') :
    closing body b = close b' := by
  simp only [closing, run]

/-! ## At a sealed block -/

section Sealed

variable (known : b.graph.core? b.current = some x) (full : x.sealed = true)

include known full

theorem append_of_sealed (text : String) : append text b = .ok false b := by
  obtain ⟨y, rfl, found⟩ := currentBlock_run known
  have full : y.sealed = true := full
  rw [append, bind_ok found, full]
  rfl

theorem appendAll_of_sealed (fragments : List String) : appendAll fragments b = .ok () b := by
  induction fragments with
  | nil => rfl
  | cons text rest ih =>
    have first := discard_ok (append_of_sealed known full text)
    exact (forM_cons_ok (f := fun text => discard (append text)) first).trans ih

theorem splice_of_sealed : splice b = .ok none b := by
  obtain ⟨y, rfl, found⟩ := currentBlock_run known
  have full : y.sealed = true := full
  rw [splice, bind_ok found, full]
  rfl

theorem advance_of_sealed : advance b = .ok false b := by
  rw [advance, bind_ok (splice_of_sealed known full)]
  rfl

theorem openLoop_of_sealed : openLoop b = .ok false b := by
  rw [openLoop, bind_ok (advance_of_sealed known full)]
  rfl

theorem openBranch_of_sealed : openBranch b = .ok false b := by
  rw [openBranch, bind_ok (splice_of_sealed known full)]
  rfl

theorem withBranch_of_sealed (body : Build Unit) : withBranch body b = .ok false b := by
  rw [withBranch, bind_ok (openBranch_of_sealed known full)]
  rfl

theorem withLoop_of_sealed (body : Build Unit) : withLoop body b = .ok false b := by
  rw [withLoop, bind_ok (openLoop_of_sealed known full)]
  rfl

end Sealed

/-- A return has sealed the current block: it leads to the exit, and its edge is the one that
entered the exit last. -/
structure Stopped (b : Builder) : Prop where
  sealed : ∃ x, b.graph.block? b.current = some x ∧ x.sealed = true ∧
    x.successors = .singleton Graph.exit
  last : ∃ y before, b.graph.block? Graph.exit = some y ∧
    y.predecessors.toList = before ++ [b.current]
  inside : b.current ≠ Graph.exit

variable (stopped : b.Stopped)

include stopped

theorem Stopped.core : ∃ x, b.graph.core? b.current = some x ∧ x.sealed = true := by
  obtain ⟨x, found, full, -⟩ := stopped.sealed
  exact ⟨x.core, Graph.core?_eq_some.2 ⟨x, found, rfl⟩, full⟩

theorem appendAll_of_stopped (fragments : List String) :
    appendAll fragments b = .ok () b := by
  obtain ⟨x, known, full⟩ := stopped.core
  exact appendAll_of_sealed known full fragments

theorem withBranch_of_stopped (body : Build Unit) : withBranch body b = .ok false b := by
  obtain ⟨x, known, full⟩ := stopped.core
  exact withBranch_of_sealed known full body

theorem withLoop_of_stopped (body : Build Unit) : withLoop body b = .ok false b := by
  obtain ⟨x, known, full⟩ := stopped.core
  exact withLoop_of_sealed known full body

/-- Drawing the edge of a sealed block anew changes nothing, because it is the one that entered
the exit last. -/
theorem sealToExit_of_stopped : sealToExit b = .ok () b := by
  obtain ⟨x, found, sealed, leads⟩ := stopped.sealed
  obtain ⟨y, before, foundExit, order⟩ := stopped.last
  have here := Graph.block?_isSome_iff.1 (Option.isSome_of_eq_some found)
  have there := Graph.block?_isSome_iff.1 (Option.isSome_of_eq_some foundExit)
  have known : b.graph.core? b.current = some x.core := Graph.core?_eq_some.2 ⟨x, found, rfl⟩
  have fresh : b.current ∉ before := by
    have nodup := y.predecessors.nodup
    rw [order, List.nodup_append] at nodup
    intro member
    exact nodup.2.2 _ member _ (by simp) rfl
  -- erasing the last member and inserting it again restores even the order
  have again : (y.predecessors.erase b.current).insert b.current = y.predecessors := by
    apply OrderedSet.ext
    simp [OrderedSet.toList_insert, OrderedSet.mem_iff, order, List.erase_append_right _ fresh,
      fresh]
  have same : b.graph.returned b.current Graph.exit = b.graph := by
    refine Graph.eq_of_block? (fun h => ?_) (by simp [Graph.returned, Graph.withEdge,
      Graph.withoutEdge, Graph.revise])
    simp only [Graph.returned, Graph.withEdge, Graph.withoutEdge, Graph.block?_revise]
    -- only the two ends of the drawn edge are touched
    by_cases current : h = b.current
    · subst h
      cases x
      simp_all [Ne.symm stopped.inside, Block.addSuccessor, Block.dropSuccessor]
    · by_cases target : h = Graph.exit
      · subst h
        simp [Ne.symm current, foundExit, Block.addPredecessor, Block.dropPredecessor,
          again]
      · simp [Ne.symm current, Ne.symm target]
  rw [sealToExit_run known leads there there, same]

end Builder

end Flowgraph
