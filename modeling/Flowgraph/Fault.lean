/-!
# Handles, faults and edits

A block is named by its handle, a natural number: the blocks of a graph with `n` blocks
have the handles `0 … n - 1`, in the order in which they were made, and every other number
names nothing.

Here is also what can go wrong while a graph is grown, pruned or printed, and the kind of
computation in which it goes wrong: an `Edit` works on a state and, when it stops
on a fault, leaves in place whatever it had changed before.
-/

namespace Flowgraph

/-! ## Handles outside the library

Outside the library handles are read and written as signed 64-bit words.  A negative word
stands for one of the upper half of the words, which no block of a graph that fits into
memory has.
-/

namespace Handle

/-- How many of the words are not negative. -/
def half : Nat := 0x8000000000000000

/-- The handle that a signed word stands for. -/
def ofInt (i : Int) : Nat := (i % (2 * half : Nat)).toNat

/-- The signed word for a handle. -/
def toInt (h : Nat) : Int := if h < half then h else h - (2 * half : Nat)

theorem toInt_ofInt {i : Int} (low : -half ≤ i) (high : i < half) :
    toInt (ofInt i) = i := by
  unfold toInt ofInt half at *
  split <;> omega

theorem toInt_of_lt {h : Nat} (small : h < half) : toInt h = h :=
  if_pos small

end Handle

/-! ## Faults -/

/-- The calls that need the scopes of a builder to be nested in a certain way. -/
inductive ScopeCall where
  /-- Going back to the start of the innermost scope. -/
  | rewind
  /-- Leaving the innermost scope. -/
  | close
  /-- Handing over the finished graph. -/
  | finish
  deriving DecidableEq, Repr

/-- The name of a call, as messages give it. -/
def ScopeCall.name : ScopeCall → String
  | .rewind => "resetToScopeStart"
  | .close => "closeScope"
  | .finish => "finish"

/-- Why growing, pruning or printing a graph stopped. -/
inductive Fault where
  /-- `call` met `openScopes` open scopes: none where it needs one, or some where all have
  to be closed. -/
  | nesting (call : ScopeCall) (openScopes : Nat)
  /-- The graph was pruned before. -/
  | alreadyPruned (graph : String)
  /-- The graph has to be pruned first. -/
  | notPruned (graph : String)
  /-- The handle names no block of the graph. -/
  | noBlock (graph : String) (handle : Nat)
  /-- A successor was asked for, and the block has none.  A block is named by its number if
  it has one, and by its handle otherwise. -/
  | noSuccessor (graph : String) (block : Nat)
  /-- The work done inside a scope gave up with a message of its own. -/
  | raised (message : String)
  deriving DecidableEq, Repr

/-- The text that tells a reader what went wrong. -/
def Fault.message : Fault → String
  | .nesting call 0 => call.name ++ " called with no open scope"
  | .nesting call (n + 1) => call.name ++ s!" called with {n + 1} scope(s) still open"
  | .alreadyPruned graph => graph ++ ": CFG has already been pruned"
  | .notPruned graph => graph ++ ": CFG must be pruned before it is rendered"
  | .noBlock graph handle => graph ++ s!": no block with handle {Handle.toInt handle}"
  | .noSuccessor graph block => graph ++ s!": block {block} has no successor"
  | .raised message => message

/-! ## Edits -/

/-- A computation on a state `σ`.  It ends with a value or with a fault, and in both cases
with a state. -/
abbrev Edit (σ : Type) := EStateM Fault σ

namespace Edit

variable {σ τ α : Type}

/-- Compute something from the state without changing it. -/
def inspect (f : σ → Except Fault α) : Edit σ α := fun s =>
  match f s with
  | .ok a => .ok a s
  | .error fault => .error fault s

/-- Work on a part of a larger state. -/
def onPart (part : σ → τ) (replace : σ → τ → σ) (edit : Edit τ α) : Edit σ α := fun s =>
  match edit (part s) with
  | .ok a t => .ok a (replace s t)
  | .error fault t => .error fault (replace s t)

@[simp] theorem inspect_ok {f : σ → Except Fault α} {s : σ} {a : α} (h : f s = .ok a) :
    inspect f s = .ok a s := by
  simp [inspect, h]

@[simp] theorem onPart_ok {part : σ → τ} {replace : σ → τ → σ} {edit : Edit τ α} {s : σ}
    {t : τ} {a : α} (h : edit (part s) = .ok a t) :
    onPart part replace edit s = .ok a (replace s t) := by
  simp [onPart, h]

end Edit

end Flowgraph
