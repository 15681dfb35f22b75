import Flowgraph.Proofs.Execution
import Flowgraph.Proofs.Keywords
import Flowgraph.Proofs.Twins
import Mathlib.Data.List.Flatten

/-!
# The parts of a statement

A statement is written part by part: what has no control flow of its own is one part, a header is
one, and so is each of the two clauses around a `for` loop.  `Statement.parts` lists the parts that
control can come to, in source order.  Nothing else of a statement is ever printed.
-/

namespace Flowgraph

/-- What is written in one go.  A header remembers what it decides about. -/
inductive Part where
  | simple (tokens : List String)
  | ret (tokens : List String)
  | clause (tokens : List String)
  | branch (condition : List String) (consequent : Statement) (alternate : Option Statement)
  | whileHeader (condition : List String) (body : Statement)
  | forHeader (condition : List String) (body : Statement) (update : Option (List String))

namespace Statement

mutual

/-- Control never gets past the statement. -/
def returns : Statement → Bool
  | .ret _ _ => true
  | .sequence body _ => returnsAny body
  | .branch _ consequent alternate _ => consequent.returns && returnsOption alternate
  | .simple _ _ | .whileLoop _ _ _ | .forLoop _ _ _ _ _ => false

def returnsAny : List Statement → Bool
  | [] => false
  | s :: rest => s.returns || returnsAny rest

def returnsOption : Option Statement → Bool
  | none => false
  | some s => s.returns

end

mutual

/-- The parts that control can come to. -/
def parts : Statement → List Part
  | .simple tokens _ => [.simple tokens]
  | .ret tokens _ => [.ret tokens]
  | .sequence body _ => partsAll body
  | .branch condition consequent alternate _ =>
    .branch condition consequent alternate :: (consequent.parts ++ partsOption alternate)
  | .whileLoop condition body _ => .whileHeader condition body :: body.parts
  | .forLoop init condition update body _ =>
    init.toList.map .clause ++ .forHeader condition body update :: body.parts ++
      (if body.returns then [] else update.toList.map .clause)

def partsAll : List Statement → List Part
  | [] => []
  | s :: rest => s.parts ++ if s.returns then [] else partsAll rest

def partsOption : Option Statement → List Part
  | none => []
  | some s => s.parts

end

mutual

/-- All tokens of the statement. -/
def tokens : Statement → List String
  | .simple tokens _ | .ret tokens _ => tokens
  | .sequence body _ => tokensAll body
  | .branch condition consequent alternate _ =>
    condition ++ consequent.tokens ++ tokensOption alternate
  | .whileLoop condition body _ => condition ++ body.tokens
  | .forLoop init condition update body _ =>
    init.getD [] ++ condition ++ body.tokens ++ update.getD []

def tokensAll : List Statement → List String
  | [] => []
  | s :: rest => s.tokens ++ tokensAll rest

def tokensOption : Option Statement → List String
  | none => []
  | some s => s.tokens

end

/-- The second arm of an `if`; nothing is done in an arm that is missing. -/
abbrev orElse (alternate : Option Statement) : Statement := alternate.getD (.sequence [] none)

variable {s consequent : Statement} {rest : List Statement} {alternate : Option Statement}
  {condition : List String} {location : Option Location}

@[simp] theorem parts_nil : (sequence [] location).parts = [] := by
  simp [parts, partsAll]

theorem parts_cons : (sequence (s :: rest) location).parts =
    s.parts ++ if s.returns then [] else (sequence rest location).parts := by
  simp [parts, partsAll]

theorem parts_branch : (branch condition consequent alternate location).parts =
    .branch condition consequent alternate :: (consequent.parts ++ (orElse alternate).parts) := by
  cases alternate <;> simp [parts, partsOption]

@[simp] theorem returns_nil : (sequence [] location).returns = false := by
  simp [returns, returnsAny]

theorem returns_cons : (sequence (s :: rest) location).returns =
    (s.returns || (sequence rest location).returns) := by
  simp [returns, returnsAny]

theorem returns_branch : (branch condition consequent alternate location).returns =
    (consequent.returns && (orElse alternate).returns) := by
  cases alternate <;> simp [returns, returnsOption]

theorem returns_iff (s : Statement) : s.returns = true ↔ s.AlwaysReturns := by
  induction s using Statement.induction with
  | simple | whileLoop | forLoop =>
    simp only [returns, Bool.false_eq_true, false_iff]
    intro always
    cases always
  | ret tokens location => simp [returns, AlwaysReturns.ret]
  | sequence body location each =>
    induction body with
    | nil => simp [not_alwaysReturns_nil]
    | cons s rest ih =>
      have first := each s List.mem_cons_self
      have later := ih fun t member => each t (List.mem_cons_of_mem _ member)
      rw [returns_cons, alwaysReturns_cons, Bool.or_eq_true, first, later]
  | branch condition consequent alternate location thenArm elseArm =>
    rw [returns_branch, alwaysReturns_branch, Bool.and_eq_true, thenArm]
    cases alternate with
    | none => simp [not_alwaysReturns_nil]
    | some alternate => simp [elseArm alternate rfl]

end Statement

namespace Part

def fragments : Part → List String
  | simple tokens | ret tokens => Fragment.statement tokens
  | clause tokens => Fragment.clause tokens
  | branch condition _ _ => Fragment.ifHeader condition
  | whileHeader condition _ => Fragment.whileHeader condition
  | forHeader condition _ _ => Fragment.forHeader condition

/-- The tokens of a part, in the order in which they are written. -/
def tokens : Part → List String
  | simple tokens | ret tokens | clause tokens => tokens
  | branch condition _ _ | whileHeader condition _ | forHeader condition _ _ => condition

/-- What is written in front of the tokens. -/
def opening : Part → List String
  | simple _ | ret _ | clause _ => ["    "]
  | branch _ _ _ => ["    ", "if", "( "]
  | whileHeader _ _ => ["    ", "while", "( "]
  | forHeader _ _ _ => ["    ", "for", "( ", "; "]

/-- What is written behind the tokens. -/
def closing : Part → List String
  | simple _ | ret _ => ["\n"]
  | clause _ => ["; ", "\n"]
  | branch _ _ _ | whileHeader _ _ => [") "]
  | forHeader _ _ _ => ["; ", ") "]

/-- The fragments of a part hold its tokens, each of them once and in order, with a space behind it;
around them stands what belongs to the kind of the part. -/
theorem fragments_eq (p : Part) :
    p.fragments = p.opening ++ p.tokens.map (· ++ " ") ++ p.closing := by
  cases p <;> rfl

/-- The part is the header of a loop. -/
def isLoop : Part → Bool
  | whileHeader _ _ | forHeader _ _ _ => true
  | simple _ | ret _ | clause _ | branch _ _ _ => false

def isReturn : Part → Bool
  | ret _ => true
  | simple _ | clause _ | branch _ _ _ | whileHeader _ _ | forHeader _ _ _ => false

def isBranch : Part → Bool
  | branch _ _ _ => true
  | simple _ | ret _ | clause _ | whileHeader _ _ | forHeader _ _ _ => false

/-- The parts inside a loop. -/
def inside : Part → List Part
  | whileHeader _ body => body.parts
  | forHeader _ body update => body.parts ++ if body.returns then [] else update.toList.map clause
  | simple _ | ret _ | clause _ | branch _ _ _ => []

/-- Neither arm of the `if` contributes any fragment. -/
def Blank : Part → Prop
  | branch _ consequent alternate => consequent.parts = [] ∧ (Statement.orElse alternate).parts = []
  | simple _ | ret _ | clause _ | whileHeader _ _ | forHeader _ _ _ => True

/-- Control goes on behind the part, whatever happens: other than by a return, or by a header that
has something to choose from. -/
def Passes (p : Part) : Prop := p.isLoop = false ∧ p.isReturn = false ∧ p.Blank

theorem fragments_eq_cons (p : Part) : ∃ rest, p.fragments = Fragment.indent :: rest := by
  cases p <;> exact ⟨_, rfl⟩

theorem fragments_ne_nil (p : Part) : p.fragments ≠ [] := by
  obtain ⟨rest, eq⟩ := p.fragments_eq_cons
  simp [eq]

theorem passes_simple (tokens : List String) : (simple tokens).Passes := ⟨rfl, rfl, trivial⟩

theorem passes_clause (tokens : List String) : (clause tokens).Passes := ⟨rfl, rfl, trivial⟩

end Part

/-- The fragments of parts in a row. -/
def fragmentsOf (parts : List Part) : List String := parts.flatMap Part.fragments

@[simp] theorem fragmentsOf_nil : fragmentsOf [] = [] := rfl

theorem fragmentsOf_cons (p : Part) (parts : List Part) :
    fragmentsOf (p :: parts) = p.fragments ++ fragmentsOf parts := List.flatMap_cons

@[simp] theorem fragmentsOf_append (parts parts' : List Part) :
    fragmentsOf (parts ++ parts') = fragmentsOf parts ++ fragmentsOf parts' :=
  List.flatMap_append

@[simp] theorem fragmentsOf_singleton (p : Part) : fragmentsOf [p] = p.fragments := by
  simp [fragmentsOf]

/-- Parts in a row hold all their tokens, in order. -/
theorem sublist_fragmentsOf (parts : List Part) :
    ((parts.flatMap Part.tokens).map (· ++ " ")).Sublist (fragmentsOf parts) := by
  rw [List.map_flatMap]
  refine List.Sublist.flatMap_right _ fun p _ => ?_
  rw [p.fragments_eq, List.append_assoc]
  exact (List.sublist_append_left _ _).trans (List.sublist_append_right _ _)

theorem fragmentsOf_eq_nil {parts : List Part} : fragmentsOf parts = [] ↔ parts = [] := by
  constructor
  · intro empty
    cases parts with
    | nil => rfl
    | cons p rest =>
      rw [fragmentsOf_cons, List.append_eq_nil_iff] at empty
      exact absurd empty.1 p.fragments_ne_nil
  · intro empty
    rw [empty]
    rfl

theorem fragmentsOf_clauses (clause : Option (List String)) :
    fragmentsOf (clause.toList.map .clause) = clauseLines clause := by
  cases clause with
  | none => rfl
  | some tokens => exact fragmentsOf_singleton _

/-- The tokens of a part that control can come to are among those of the statement. -/
theorem Statement.tokens_of_mem_parts {s : Statement} {p : Part} (member : p ∈ s.parts) :
    ∀ token ∈ p.tokens, token ∈ s.tokens := by
  induction s using Statement.induction with
  | simple | ret =>
    rw [parts, List.mem_singleton] at member
    subst member
    exact fun token inside => inside
  | sequence body location each =>
    induction body with
    | nil => simp at member
    | cons s rest ih =>
      rw [parts_cons, List.mem_append] at member
      intro token inside
      obtain first | later := member
      · have found := each s List.mem_cons_self first token inside
        simp [tokens, tokensAll, found]
      · split at later
        · cases later
        · have found := ih (fun t member => each t (List.mem_cons_of_mem _ member)) later token inside
          simp only [tokens] at found
          simp [tokens, tokensAll, found]
  | branch condition consequent alternate location thenArm elseArm =>
    rw [parts_branch, List.mem_cons, List.mem_append] at member
    intro token inside
    obtain rfl | first | second := member
    · rw [Part.tokens] at inside
      simp [tokens, inside]
    · have found := thenArm first token inside
      simp [tokens, found]
    · cases alternate with
      | none => simp at second
      | some alternate =>
        have found := elseArm alternate rfl second token inside
        simp [tokens, tokensOption, found]
  | whileLoop condition body location within =>
    rw [parts, List.mem_cons] at member
    intro token inside
    obtain rfl | later := member
    · rw [Part.tokens] at inside
      simp [tokens, inside]
    · simp [tokens, within later token inside]
  | forLoop init condition update body location within =>
    simp only [parts, List.mem_append, List.mem_cons, List.mem_map, Option.mem_toList] at member
    intro token inside
    obtain ((⟨clause, rfl, rfl⟩ | rfl | later) | last) := member
    · rw [Part.tokens] at inside
      simp [tokens, inside]
    · rw [Part.tokens] at inside
      simp [tokens, inside]
    · simp [tokens, within later token inside]
    · split at last
      · cases last
      · obtain ⟨clause, given, rfl⟩ := List.mem_map.1 last
        obtain rfl := Option.mem_toList.1 given
        rw [Part.tokens] at inside
        simp [tokens, inside]

end Flowgraph
