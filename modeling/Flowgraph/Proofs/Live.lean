import Flowgraph.Proofs.Growth
import Flowgraph.Proofs.Keywords
import Mathlib.Logic.Relation

/-!
# The live part of a graph

Pruning takes the numbers of blocks away and leaves the blocks where they are, so the graph that is
pruned is the part of an arena that is still alive.  `live?` looks at this part and `Flow` at its
edges.  A graph is `Tidy` if its live part is a graph of its own: no live block has a neighbour
that was removed, every edge is kept at both ends, and every block ends in one of three ways.
-/

namespace Flowgraph

open Relation

namespace Ending

variable {α β : Type}

/-- The same ending with other places. -/
def map (f : α → β) : Ending α → Ending β
  | goes next => goes (f next)
  | returns => returns
  | branches thenArm elseArm => branches (f thenArm) (f elseArm)
  | loops body after => loops (f body) (f after)

@[simp] theorem decides_map (f : α → β) (e : Ending α) : (e.map f).decides = e.decides := by
  cases e <;> rfl

theorem next?_map (f : α → β) {stop : α} {stop' : β} (stops : f stop = stop') (e : Ending α)
    (choice : Option Bool) : (e.map f).next? stop' choice = (e.next? stop choice).map f := by
  cases e with
  | goes next => rfl
  | returns => simp [map, next?, stops]
  | branches thenArm elseArm =>
    rcases choice with _ | _ | _ <;> rfl
  | loops body after =>
    rcases choice with _ | _ | _ <;> rfl

end Ending

namespace Ending

/-- The same ending with a return as an edge to the exit. -/
def resolved : Ending Nat → Ending Nat
  | returns => goes Graph.exit
  | e => e

@[simp] theorem decides_resolved (e : Ending Nat) : e.resolved.decides = e.decides := by
  cases e <;> rfl

end Ending

namespace Block

/-- How control leaves a block, read off its successors and its targets.  A return is an edge to
the exit like any other. -/
inductive Ends (x : Block) : Ending Nat → Prop where
  | goes {next : Nat} (successors : x.successors = .singleton next) (noThen : x.thenTarget = none)
      (noElse : x.elseTarget = none) (noExit : x.loopExit = none) : Ends x (.goes next)
  | branches {thenArm elseArm : Nat}
      (successors : ∀ v, v ∈ x.successors ↔ v = thenArm ∨ v = elseArm)
      (isThen : x.thenTarget = some thenArm) (isElse : x.elseTarget = some elseArm)
      (noExit : x.loopExit = none) : Ends x (.branches thenArm elseArm)
  | loops {body after : Nat} (apart : body ≠ after)
      (successors : ∀ v, v ∈ x.successors ↔ v = body ∨ v = after) (noThen : x.thenTarget = none)
      (noElse : x.elseTarget = none) (isExit : x.loopExit = some after) :
      Ends x (.loops body after)

theorem id_of_alive {x : Block} (alive : x.isAlive = true) (body : x.kind = .body) : ∃ i, x.id = some i := by
  rw [isAlive, body] at alive
  exact Option.isSome_iff_exists.1 (by simpa using alive)

theorem Ends.mem_successors {x : Block} {e : Ending Nat} (ends : x.Ends e) {v : Nat} :
    v ∈ x.successors ↔ v ∈ e.targets Graph.exit := by
  cases ends with
  | goes successors => simp [successors, Ending.targets]
  | branches successors => simp [successors, Ending.targets]
  | loops apart successors => simp [successors, Ending.targets]

/-- A block ends in one way only. -/
theorem Ends.unique {x : Block} {e e' : Ending Nat} (ends : x.Ends e) (ends' : x.Ends e') : e = e' := by
  cases ends with
  | goes successors noThen noElse noExit =>
    cases ends' with
    | goes successors' =>
      rw [successors] at successors'
      have first := congrArg OrderedSet.first? successors'
      exact congrArg Ending.goes (Option.some.inj first)
    | branches _ isThen => cases noThen.symm.trans isThen
    | loops _ _ _ _ isExit => cases noExit.symm.trans isExit
  | branches successors isThen isElse noExit =>
    cases ends' with
    | goes _ noThen => cases isThen.symm.trans noThen
    | branches _ isThen' isElse' =>
      cases isThen.symm.trans isThen'
      cases isElse.symm.trans isElse'
      rfl
    | loops _ _ noThen => cases isThen.symm.trans noThen
  | @loops body after apart successors noThen noElse isExit =>
    cases ends' with
    | goes _ _ _ noExit => cases isExit.symm.trans noExit
    | branches _ isThen => cases noThen.symm.trans isThen
    | loops apart' successors' _ _ isExit' =>
      cases isExit.symm.trans isExit'
      have member := (successors' body).1 ((successors body).2 (.inl rfl))
      rw [member.resolve_right apart]

/-- How a block ends depends on its successors and its targets only. -/
theorem Ends.congr {x y : Block} {e : Ending Nat} (ends : x.Ends e)
    (successors : y.successors = x.successors) (thenTarget : y.thenTarget = x.thenTarget)
    (elseTarget : y.elseTarget = x.elseTarget) (loopExit : y.loopExit = x.loopExit) : y.Ends e := by
  cases ends with
  | goes leads noThen noElse noExit =>
    exact .goes (successors.trans leads) (thenTarget.trans noThen) (elseTarget.trans noElse)
      (loopExit.trans noExit)
  | branches leads isThen isElse noExit =>
    exact .branches (successors ▸ leads) (thenTarget.trans isThen) (elseTarget.trans isElse)
      (loopExit.trans noExit)
  | loops apart leads noThen noElse isExit =>
    exact .loops apart (successors ▸ leads) (thenTarget.trans noThen) (elseTarget.trans noElse)
      (loopExit.trans isExit)

end Block

theorem Ending.block_ends {e : Ending Nat} {id : Option Nat} {lines : List String}
    (apart : ∀ body after, e = .loops body after → body ≠ after) :
    (e.block id lines).Ends e.resolved := by
  cases e with
  | goes next => exact .goes rfl rfl rfl rfl
  | returns => exact .goes rfl rfl rfl rfl
  | branches thenArm elseArm =>
    exact .branches (by simp [Ending.block, Ending.successors]) rfl rfl rfl
  | loops body after =>
    exact .loops (apart body after rfl) (by simp [Ending.block, Ending.successors]) rfl rfl rfl

namespace Graph

variable {g : Graph} {h i u v : Nat} {x y : Block}

/-- What a live block holds besides its predecessors. -/
def live? (g : Graph) (h : Nat) : Option Block := (g.core? h).filter Block.isAlive

theorem live?_eq_some : g.live? h = some x ↔ g.core? h = some x ∧ x.isAlive = true := by
  simp [live?, Option.filter_eq_some_iff]

theorem live_lt (known : g.live? h = some x) : h < g.arena.size :=
  core?_isSome_iff.1 (by simp [(live?_eq_some.1 known).1])

/-- The fragments of a block; none if it is not there. -/
def text (g : Graph) (h : Nat) : List String := ((g.live? h).map Block.lines).getD []

theorem text_of_live (known : g.live? h = some x) : g.text h = x.lines := by
  simp [text, known]

/-- The live blocks of the table. -/
def roll (g : Graph) : List Nat := g.table.filter fun h => (g.live? h).isSome

/-- There is an edge from the live block `u` to `v`. -/
def Flow (g : Graph) (u v : Nat) : Prop := ∃ x, g.live? u = some x ∧ v ∈ x.successors

/-- The live part of the graph is a graph of its own. -/
structure Tidy (g : Graph) : Prop where
  kinds : ∀ h x, g.core? h = some x → x.kind = BlockKind.ofHandle h
  nodup : g.table.Nodup
  inside : ∀ h ∈ g.table, 2 ≤ h ∧ h < g.arena.size
  numbers : ∀ h x i, g.core? h = some x → x.id = some i → g.table[i]? = some h
  entry : ∃ next, g.live? entry = some { kind := .entry, successors := .singleton next }
  exit : g.live? exit = some { kind := .exit }
  source : ∀ u, ¬ g.Entered u Graph.entry
  flow : ∀ u v, g.Flow u v → g.Entered u v ∧ (g.live? v).isSome
  entered : ∀ u v, (g.live? v).isSome → g.Entered u v → g.Flow u v
  ends : ∀ h x, g.live? h = some x → x.kind = .body →
    ∃ e, x.Ends e ∧ (e.decides → 0 < Fragment.choices x.lines)

/-- Every edge of the live part is kept at both of its ends, and no live block has a neighbour that
was removed. -/
structure Linked (g : Graph) : Prop where
  flow : ∀ u v, g.Flow u v → g.Entered u v ∧ (g.live? v).isSome
  entered : ∀ u v, (g.live? v).isSome → g.Entered u v → g.Flow u v

theorem Tidy.linked (tidy : g.Tidy) : g.Linked := ⟨tidy.flow, tidy.entered⟩

/-- The handle of a block tells its kind, nothing enters the entry, and edges are kept at both ends. -/
structure Woven (g : Graph) : Prop where
  kinds : ∀ h x, g.core? h = some x → x.kind = BlockKind.ofHandle h
  source : ∀ u, ¬ g.Entered u Graph.entry
  linked : g.Linked

theorem Tidy.woven (tidy : g.Tidy) : g.Woven := ⟨tidy.kinds, tidy.source, tidy.linked⟩

theorem Woven.inside (woven : g.Woven) (known : g.live? h = some x) (body : x.kind = .body) :
    2 ≤ h := by
  rw [woven.kinds h x (live?_eq_some.1 known).1] at body
  exact BlockKind.ofHandle_eq_body.1 body

/-- Every live block but the exit ends in one way, and only a body block asks for a choice. -/
theorem Tidy.ends_of_live (tidy : g.Tidy) (known : g.live? h = some x) (other : h ≠ Graph.exit) :
    ∃ e, x.Ends e ∧ (e.decides → x.kind = .body ∧ 0 < Fragment.choices x.lines) := by
  match h with
  | 0 =>
    obtain ⟨next, known'⟩ := tidy.entry
    cases known.symm.trans known'
    exact ⟨.goes next, .goes rfl rfl rfl rfl, by simp [Ending.decides]⟩
  | 1 => exact absurd rfl other
  | h + 2 =>
    have body : x.kind = .body := tidy.kinds (h + 2) x (live?_eq_some.1 known).1
    obtain ⟨e, ends, asked⟩ := tidy.ends (h + 2) x known body
    exact ⟨e, ends, fun decides => ⟨body, asked decides⟩⟩

theorem Tidy.not_flow_exit (tidy : g.Tidy) : ¬ g.Flow Graph.exit v := by
  simp [Flow, tidy.exit]

/-- A numbered block has a place in the table. -/
theorem Tidy.mem_table (tidy : g.Tidy) (known : g.live? h = some x) (body : x.kind = .body) :
    h ∈ g.table := by
  obtain ⟨core, alive⟩ := live?_eq_some.1 known
  obtain ⟨i, id⟩ := Block.id_of_alive alive body
  exact List.mem_of_getElem? (tidy.numbers h x i core id)

theorem Tidy.mem_roll (tidy : g.Tidy) (known : g.live? h = some x) (body : x.kind = .body) :
    h ∈ g.roll :=
  List.mem_filter.2 ⟨tidy.mem_table known body, by simp [known]⟩

/-- Edges between empty blocks lead to greater numbers, so there is no way round. -/
def Rises (g : Graph) : Prop :=
  ∀ u v x y i j, g.live? u = some x → x.lines = [] → x.id = some i → v ∈ x.successors →
    g.live? v = some y → y.lines = [] → y.id = some j → i < j

/-- Control can get from `u` to `v` without meeting a fragment on the way. -/
inductive Skips (g : Graph) : Nat → Nat → Prop where
  | refl (u : Nat) : Skips g u u
  | step {u v w : Nat} {x : Block} (live : g.live? u = some x) (body : x.kind = .body)
      (empty : x.lines = []) (next : v ∈ x.successors) (rest : Skips g v w) : Skips g u w

/-- From the two places behind the header of a loop, control does not get to the same place without
meeting a fragment. -/
def Apart (g : Graph) : Prop :=
  ∀ h x body after, g.live? h = some x → x.kind = .body → x.Ends (.loops body after) →
    ∀ v, g.Skips body v → ¬ g.Skips after v

/-- No live block is empty. -/
def Filled (g : Graph) : Prop := ∀ h x, g.live? h = some x → x.kind = .body → x.lines ≠ []

/-- Every live block lies on a way from the entry to the exit. -/
def Passable (g : Graph) : Prop :=
  ∀ h, (g.live? h).isSome → ReflTransGen g.Flow entry h ∧ ReflTransGen g.Flow h exit

end Graph

end Flowgraph
