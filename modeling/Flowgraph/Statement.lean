/-!
# Structured statements

The programs whose graphs are built.  Text is kept as the tokens of each piece; there are no
jumps but `return`.
-/

namespace Flowgraph

/-- A place in a source file: lines count from 1, columns from 0 in UTF-16 code units. -/
structure Location where
  line : Int
  column : Int
  deriving DecidableEq, Repr, Inhabited

/-- A statement.  Each kind carries the place where it starts, if that is known. -/
inductive Statement where
  /-- A statement without control flow of its own. -/
  | simple (tokens : List String) (location : Option Location)
  /-- One statement after the other. -/
  | sequence (body : List Statement) (location : Option Location)
  /-- An `if`, with or without an `else`. -/
  | branch (condition : List String) (consequent : Statement)
      (alternate : Option Statement) (location : Option Location)
  /-- A `while` loop. -/
  | whileLoop (condition : List String) (body : Statement) (location : Option Location)
  /-- A `for` loop.  An empty condition has no tokens; the other clauses may be missing. -/
  | forLoop (init : Option (List String)) (condition : List String)
      (update : Option (List String)) (body : Statement) (location : Option Location)
  /-- A `return`, with its keyword. -/
  | ret (tokens : List String) (location : Option Location)
  deriving Inhabited

namespace Statement

/-- To show something of every statement, show it of each kind from its parts. -/
@[elab_as_elim]
theorem induction {motive : Statement → Prop}
    (simple : ∀ tokens location, motive (.simple tokens location))
    (sequence : ∀ body location, (∀ s ∈ body, motive s) → motive (.sequence body location))
    (branch : ∀ condition consequent alternate location, motive consequent →
      (∀ s ∈ alternate, motive s) → motive (.branch condition consequent alternate location))
    (whileLoop : ∀ condition body location, motive body →
      motive (.whileLoop condition body location))
    (forLoop : ∀ init condition update body location, motive body →
      motive (.forLoop init condition update body location))
    (ret : ∀ tokens location, motive (.ret tokens location))
    (s : Statement) : motive s :=
  @Statement.rec motive (fun body => ∀ s ∈ body, motive s)
    (fun alternate => ∀ s ∈ alternate, motive s)
    simple sequence branch whileLoop forLoop ret
    (by simp) (fun _ _ head tail => by simpa using ⟨head, tail⟩)
    (by simp) (fun _ some => by simpa using some) s

end Statement

/-- A function of the source file. -/
structure SourceFunction where
  name : String
  returnType : List String
  parameters : List String
  body : Statement
  location : Option Location := none
  deriving Inhabited

/-- A source file: the statements at file scope and the functions, each in source order. -/
structure SourceProgram where
  globals : List (List String)
  functions : List SourceFunction
  deriving Inhabited

end Flowgraph
