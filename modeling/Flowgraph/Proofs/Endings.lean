import Flowgraph.Proofs.Edges

/-!
# Endings

The four ways in which control leaves a block, wherever it leads to.  While a graph grows,
every numbered block that is no longer grown at has the form `Ending.block`; the equations at
the end say how a block comes to have it.
-/

namespace Flowgraph

/-- How control leaves a block that leads to places in `α`. -/
inductive Ending (α : Type) where
  /-- Always to the same place. -/
  | goes (next : α)
  /-- Out of the function. -/
  | returns
  /-- To one of the arms of an `if`. -/
  | branches (thenArm elseArm : α)
  /-- From the header of a loop into its body or past it. -/
  | loops (body after : α)
  deriving DecidableEq, Repr

namespace Ending

variable {α β : Type}

/-- Does a choice decide where control goes? -/
def decides : Ending α → Bool
  | goes _ | returns => false
  | branches _ _ | loops _ _ => true

/-- Where control goes after the last choice made in the block; `stop` is where a return
leads. -/
def next? (stop : α) : Ending α → Option Bool → Option α
  | goes next, _ => some next
  | returns, _ => some stop
  | branches thenArm elseArm, some choice => some (if choice then thenArm else elseArm)
  | loops body after, some choice => some (if choice then body else after)
  | branches _ _, none | loops _ _, none => none

/-- Everywhere control can go. -/
def targets (stop : α) : Ending α → List α
  | goes next => [next]
  | returns => [stop]
  | branches thenArm elseArm => [thenArm, elseArm]
  | loops body after => [body, after]

/-- Two endings of one kind that lead to related places. -/
inductive Rel (R : α → β → Prop) : Ending α → Ending β → Prop where
  | goes {a b} : R a b → Rel R (goes a) (goes b)
  | returns : Rel R returns returns
  | branches {a b a' b'} : R a b → R a' b' → Rel R (branches a a') (branches b b')
  | loops {a b a' b'} : R a b → R a' b' → Rel R (loops a a') (loops b b')

theorem Rel.mono {R S : α → β → Prop} {e : Ending α} {f : Ending β} (rel : Rel R e f)
    (le : ∀ a b, R a b → S a b) : Rel S e f := by
  cases rel with
  | goes r => exact .goes (le _ _ r)
  | returns => exact .returns
  | branches r r' => exact .branches (le _ _ r) (le _ _ r')
  | loops r r' => exact .loops (le _ _ r) (le _ _ r')

theorem Rel.decides {R : α → β → Prop} {e : Ending α} {f : Ending β} (rel : Rel R e f) :
    e.decides = f.decides := by
  cases rel <;> rfl

theorem Rel.swap {R : α → β → Prop} {S : β → α → Prop} {e : Ending α} {f : Ending β}
    (rel : Rel R e f) (flip : ∀ a b, R a b → S b a) : Rel S f e := by
  cases rel with
  | goes r => exact .goes (flip _ _ r)
  | returns => exact .returns
  | branches r r' => exact .branches (flip _ _ r) (flip _ _ r')
  | loops r r' => exact .loops (flip _ _ r) (flip _ _ r')

/-- Wherever control goes from one of two related endings, it goes to a related place from the
other. -/
theorem Rel.targets {R : α → β → Prop} {e : Ending α} {f : Ending β} (rel : Rel R e f) {stop : α}
    {stop' : β} (stops : R stop stop') {a : α} (target : a ∈ e.targets stop) :
    ∃ b ∈ f.targets stop', R a b := by
  cases rel <;> simp_all [Ending.targets] <;> grind

/-- Related endings agree if the relation is a function. -/
theorem Rel.unique {R : α → β → Prop} {e : Ending α} {f f' : Ending β} (rel : Rel R e f)
    (rel' : Rel R e f') (function : ∀ a b b', R a b → R a b' → b = b') : f = f' := by
  cases rel <;> cases rel' <;> simp_all <;> grind

/-- The successors of a block, in the order in which they are found. -/
def successors : Ending Nat → OrderedSet Nat
  | goes next => .singleton next
  | returns => .singleton Graph.exit
  | branches thenArm elseArm => (OrderedSet.singleton thenArm).insert elseArm
  | loops body after => (OrderedSet.singleton body).insert after

@[simp] theorem mem_successors {e : Ending Nat} {v : Nat} :
    v ∈ e.successors ↔ v ∈ e.targets Graph.exit := by
  cases e <;> simp [successors, targets]

/-- A finished block, without its predecessors. -/
def block (e : Ending Nat) (id : Option Nat) (lines : List String) : Block where
  kind := .body
  id
  lines
  sealed := match e with | returns => true | _ => false
  successors := e.successors
  thenTarget := match e with | branches thenArm _ => some thenArm | _ => none
  elseTarget := match e with | branches _ elseArm => some elseArm | _ => none
  loopExit := match e with | loops _ after => some after | _ => none

theorem head?_successors (e : Ending Nat) :
    e.successors.toList.head? = (e.targets Graph.exit).head? := by
  have first : ∀ a b : Nat, ((OrderedSet.singleton a).insert b).toList.head? = some a := by
    intro a b
    rw [OrderedSet.toList_insert]
    split <;> rfl
  cases e with
  | goes next => rfl
  | returns => rfl
  | branches thenArm elseArm => exact first thenArm elseArm
  | loops body after => exact first body after

/-- A finished block shows how it ends. -/
theorem block_injective {e e' : Ending Nat} {id id' : Option Nat} {lines lines' : List String}
    (same : e.block id lines = e'.block id' lines') : e = e' ∧ lines = lines' := by
  have first : (e.targets Graph.exit).head? = (e'.targets Graph.exit).head? := by
    have heads := congrArg (fun x : Block => x.successors.toList.head?) same
    exact (head?_successors e).symm.trans (heads.trans (head?_successors e'))
  have sealing : (e.block id lines).sealed = (e'.block id' lines').sealed := by rw [same]
  have thens : (e.block id lines).thenTarget = (e'.block id' lines').thenTarget := by rw [same]
  have elses : (e.block id lines).elseTarget = (e'.block id' lines').elseTarget := by rw [same]
  have exits : (e.block id lines).loopExit = (e'.block id' lines').loopExit := by rw [same]
  refine ⟨?_, congrArg Block.lines same⟩
  clear same
  cases e <;> cases e' <;> simp_all [block, targets]

end Ending

end Flowgraph
