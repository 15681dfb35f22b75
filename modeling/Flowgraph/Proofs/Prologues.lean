import Flowgraph.Proofs.Acceptance
import Flowgraph.Proofs.Appearance

/-!
# What becomes of each statement

Every statement of a function has its counterpart among the statements of the lowered function, in
source order, and if control can come to it, it is shown.  Directives are another matter: those of a
file are kept, those at the start of a block are not.
-/

namespace Flowgraph

/-! ## Structured statements -/

namespace Statement

/-- The statements that stand directly in a statement, in source order. -/
def inner : Statement → List Statement
  | .simple _ _ | .ret _ _ => []
  | .sequence body _ => body
  | .branch _ consequent alternate _ => consequent :: alternate.toList
  | .whileLoop _ body _ | .forLoop _ _ _ body _ => [body]

mutual

/-- A statement and all statements in it, at any depth, in source order. -/
def statements : Statement → List Statement
  | .simple tokens location => [.simple tokens location]
  | .ret tokens location => [.ret tokens location]
  | .sequence body location => .sequence body location :: statementsAll body
  | .branch condition consequent alternate location =>
    .branch condition consequent alternate location ::
      (consequent.statements ++ statementsOption alternate)
  | .whileLoop condition body location => .whileLoop condition body location :: body.statements
  | .forLoop init condition update body location =>
    .forLoop init condition update body location :: body.statements

def statementsAll : List Statement → List Statement
  | [] => []
  | s :: rest => s.statements ++ statementsAll rest

def statementsOption : Option Statement → List Statement
  | none => []
  | some s => s.statements

end

theorem statementsAll_eq (body : List Statement) :
    statementsAll body = body.flatMap statements := by
  induction body with
  | nil => rfl
  | cons s rest ih => rw [statementsAll, ih, List.flatMap_cons]

theorem statements_eq (s : Statement) : s.statements = s :: s.inner.flatMap statements := by
  cases s with
  | simple | ret | whileLoop | forLoop => simp [statements, inner]
  | sequence body location => rw [statements, inner, statementsAll_eq]
  | branch condition consequent alternate location =>
    cases alternate <;> simp [statements, statementsOption, inner]

end Statement

/-- The statements in the body of a function, at any depth, in source order. -/
def SourceFunction.statements (fn : SourceFunction) : List Statement :=
  fn.body.inner.flatMap Statement.statements

/-! ## Written statements -/

namespace Json

variable {tokens : Array Token} {j f : Json} {s : Statement} {fn : SourceFunction}

/-- What a node says itself, apart from the statements in it, is what the statement says. -/
inductive Shows (tokens : Array Token) (j : Json) : Statement → Prop where
  | block (body : List Statement) (kind : j.kind = "BlockStatement") :
      Shows tokens j (.sequence body j.location?)
  | plain (kind : j.kind ∈ plainKinds ∨ j.kind = "Directive") :
      Shows tokens j (.simple (j.texts tokens) j.location?)
  | branch (consequent : Statement) (alternate : Option Statement) (kind : j.kind = "IfStatement") :
      Shows tokens j (.branch ((j.child "test").texts tokens) consequent alternate j.location?)
  | whileLoop (body : Statement) (kind : j.kind = "WhileStatement") :
      Shows tokens j (.whileLoop ((j.child "test").texts tokens) body j.location?)
  | forLoop (body : Statement) (kind : j.kind = "ForStatement") :
      Shows tokens j (.forLoop ((j.node? "init").map (texts tokens))
        (((j.node? "test").map (texts tokens)).getD []) ((j.node? "update").map (texts tokens))
        body j.location?)
  | ret (kind : j.kind = "ReturnStatement") : Shows tokens j (.ret (j.texts tokens) j.location?)

theorem Mirrors.shows (mirrors : Mirrors tokens j s) : Shows tokens j s := by
  cases mirrors with
  | block kind => exact .block _ kind
  | plain kind => exact .plain (.inl kind)
  | branch kind => exact .branch _ _ kind
  | whileLoop kind => exact .whileLoop _ kind
  | forLoop kind => exact .forLoop _ kind
  | ret kind => exact .ret kind

theorem forall₂_toList {α β : Type} {R : α → β → Prop} {a : Option α} {b : Option β}
    (related : Option.Rel R a b) : List.Forall₂ R a.toList b.toList := by
  cases related with
  | none => exact .nil
  | some related => exact .cons related .nil

theorem Mirrors.inner (mirrors : Mirrors tokens j s) :
    List.Forall₂ (Mirrors tokens) j.inner s.inner := by
  cases mirrors with
  | block kind each => rwa [inner_block kind]
  | plain kind =>
    rw [inner_plain kind]
    exact .nil
  | branch kind thenArm elseArm =>
    rw [inner_branch kind]
    exact .cons thenArm (forall₂_toList elseArm)
  | whileLoop kind inside =>
    rw [inner_whileLoop kind]
    exact .cons inside .nil
  | forLoop kind inside =>
    rw [inner_forLoop kind]
    exact .cons inside .nil
  | ret kind =>
    rw [inner_ret kind]
    exact .nil

/-- Statement for statement, the lowered form says what is written. -/
theorem Mirrors.statements (mirrors : Mirrors tokens j s) :
    List.Forall₂ (Shows tokens) j.statements s.statements := by
  -- What stands in a node is found by its key, so the induction is on how deep a node is nested.
  induction deep : j.depth using Nat.strongRecOn generalizing j s with
  | ind depth ih =>
    subst deep
    rw [Json.statements_eq, Statement.statements_eq]
    have each := (List.forall₂_and_left _ _).2
      ⟨fun v (member : v ∈ j.inner) => member, mirrors.inner⟩
    exact .cons mirrors.shows <| List.rel_flatMap each fun v t ⟨member, inside⟩ =>
      ih v.depth (depth_of_mem_inner member) inside rfl

/-- The statements in a function, at any depth, in source order. -/
def inside (f : Json) : List Json := f.bodyOf.flatMap Json.statements

/-- The directives that a statement begins with, if it is a block. -/
def prologue (j : Json) : List Json :=
  if j.kind = "BlockStatement" then j.nodes "directives" else []

/-- The directives in a function, at any depth. -/
def directives (f : Json) : List Json :=
  (f.child "body").nodes "directives" ++ f.inside.flatMap prologue

/-- All that is written in a function, in source order: a block begins with its directives. -/
def written (f : Json) : List Json :=
  (f.child "body").nodes "directives" ++ f.inside.flatMap fun s => s :: s.prologue

theorem length_written (f : Json) : f.written.length = f.directives.length + f.inside.length := by
  have each : ∀ js : List Json, (js.flatMap fun s => s :: s.prologue).length =
      (js.flatMap prologue).length + js.length := by
    intro js
    induction js with
    | nil => rfl
    | cons j js ih =>
      simp only [List.flatMap_cons, List.length_append, List.length_cons, ih]
      omega
  rw [written, directives, List.length_append, List.length_append, each, Nat.add_assoc]

theorem written_of_nil (none : f.directives = []) : f.written = f.inside := by
  obtain ⟨outer, inner⟩ := List.append_eq_nil_iff.1 none
  have each : ∀ s ∈ f.inside, s :: s.prologue = [s] := fun s member =>
    congrArg (s :: ·) (List.flatMap_eq_nil_iff.1 inner s member)
  rw [written, outer, List.nil_append, List.flatMap_congr each]
  exact List.flatMap_singleton' _

/-- What becomes of a function: all statements are kept, directives are not, and every statement that
control can come to is shown. -/
structure Keeps (tokens : Array Token) (f : Json) (fn : SourceFunction) : Prop where
  statements : List.Forall₂ (Shows tokens) f.inside fn.statements
  written : List.Forall₂ (Shows tokens) f.written fn.statements ↔ f.directives = []
  shown : ∃ g report record text, fn.prunedGraph = .ok (g, report) ∧ g.record = .ok record ∧
    Render.graphText g = .ok text ∧
      ∀ s, Statement.Reaches fn.body s → ∀ p ∈ s.parts, p.Stands record text

theorem Declares.statements (declares : Declares tokens f fn) :
    List.Forall₂ (Shows tokens) f.inside fn.statements := by
  obtain ⟨body, eq, each⟩ := declares.body
  rw [SourceFunction.statements, eq]
  exact List.rel_flatMap each fun j s mirrors => mirrors.statements

/-- There is one statement for each statement, so there is none for a directive. -/
theorem Declares.written (declares : Declares tokens f fn) :
    List.Forall₂ (Shows tokens) f.written fn.statements ↔ f.directives = [] := by
  constructor
  · intro all
    have long := all.length_eq
    -- The statements alone are as many as the counterparts.
    rw [length_written, declares.statements.length_eq] at long
    exact List.eq_nil_of_length_eq_zero (by omega)
  · intro none
    rw [written_of_nil none]
    exact declares.statements

/-- In a file all that is written is kept if and only if no function has directives. -/
theorem written_iff {fs : List Json} {fns : List SourceFunction}
    (each : List.Forall₂ (Declares tokens) fs fns) :
    List.Forall₂ (fun f fn => List.Forall₂ (Shows tokens) f.written fn.statements) fs fns ↔
      ∀ f ∈ fs, f.directives = [] := by
  induction each with
  | nil => simp
  | cons declares _ ih => rw [List.forall₂_cons, List.forall_mem_cons, declares.written, ih]

theorem Declares.keeps (declares : Declares tokens f fn) : Keeps tokens f fn := by
  obtain ⟨g, report, record, text, run, listed, printed, stands⟩ := fn.parts_stand
  exact ⟨declares.statements, declares.written, g, report, record, text, run, listed, printed,
    fun s reaches p member => stands p (reaches.parts_subset member)⟩

end Json

/-- Of a file that is accepted, each function keeps all its statements, once and in source order, but
none of its directives, and what control can come to is shown.  The directives of the file come first
among the globals. -/
theorem ParsedSource.lower_keeps (ast : Json) (tokens : Array Token) (program : SourceProgram)
    (accepted : ParsedSource.lower ⟨SyntaxFile.ofJson ast, tokens⟩ = .ok program) :
    List.Forall₂ (Json.Keeps tokens) ast.functions program.functions ∧
    ∃ others, program.globals =
      ((ast.child "program").nodes "directives").map (Json.texts tokens) ++ others := by
  have describes := (ast.file_yields tokens).of_ok accepted
  constructor
  · exact describes.functions.imp fun f fn declares => declares.keeps
  · rw [describes.globals, List.map_append]
    exact ⟨_, rfl⟩

namespace ParsedSource

/-- A node on the first line. -/
def nodeAt (kind : String) (start stop : Int) (fields : List (String × Json)) : Json :=
  .object ([("type", .string kind), ("start", .ofInt start), ("end", .ofInt stop),
    ("loc", .object [("start", .object [("line", .ofInt 1), ("column", .ofInt start)])])] ++ fields)

/-- The tree of `function f() { "use strict"; return 1; }`. -/
def strictFile : Json :=
  nodeAt "File" 0 39 [("program", nodeAt "Program" 0 39 [
    ("directives", .array []),
    ("body", .array [nodeAt "FunctionDeclaration" 0 39 [
      ("id", nodeAt "Identifier" 9 10 [("name", .string "f")]),
      ("params", .array []),
      ("body", nodeAt "BlockStatement" 13 39 [
        ("directives", .array [nodeAt "Directive" 15 28 []]),
        ("body", .array [nodeAt "ReturnStatement" 29 38 []])])]])])]

def strictTokens : Array Token :=
  #[⟨0, 8, "function"⟩, ⟨9, 10, "f"⟩, ⟨10, 11, "("⟩, ⟨11, 12, ")"⟩, ⟨13, 14, "\x7b"⟩,
    ⟨15, 27, "\"use strict\""⟩, ⟨27, 28, ";"⟩, ⟨29, 35, "return"⟩, ⟨36, 37, "1"⟩, ⟨37, 38, ";"⟩,
    ⟨38, 39, "\x7d"⟩]

def strictProgram : SourceProgram where
  globals := []
  functions := [
    { name := "f"
      returnType := []
      parameters := []
      body := .sequence [.ret ["return", "1", ";"] (some ⟨1, 29⟩)] (some ⟨1, 13⟩)
      location := some ⟨1, 0⟩ }]

theorem lower_strict : lower ⟨SyntaxFile.ofJson strictFile, strictTokens⟩ = .ok strictProgram := by
  have tokens : Token.within strictTokens ⟨some 29, some 38, some ⟨1, 29⟩⟩ =
      ["return", "1", ";"] := by
    decide +kernel
  rw [strictProgram, ← tokens]
  rfl

theorem lower_keeps_strict :
    lower ⟨SyntaxFile.ofJson strictFile, strictTokens⟩ = .ok strictProgram ∧
    List.Forall₂ (Json.Keeps strictTokens) strictFile.functions strictProgram.functions ∧
    ∃ others, strictProgram.globals =
      ((strictFile.child "program").nodes "directives").map (Json.texts strictTokens) ++ others :=
  ⟨lower_strict, lower_keeps strictFile strictTokens strictProgram lower_strict⟩

/-- The file is accepted, and its function has lost its directive: it is not there in its place, and
its text is nowhere. -/
theorem lower_drops_directive :
    lower ⟨SyntaxFile.ofJson strictFile, strictTokens⟩ = .ok strictProgram ∧
    ¬ List.Forall₂ (fun f fn => List.Forall₂ (Json.Shows strictTokens) f.written fn.statements)
      strictFile.functions strictProgram.functions ∧
    (strictFile.functions.flatMap Json.directives).map (Json.texts strictTokens) =
      [["\"use strict\"", ";"]] ∧
    ∀ fn ∈ strictProgram.functions, "\"use strict\"" ∉ fn.body.tokens := by
  have directive : (strictFile.functions.flatMap Json.directives).map (Json.texts strictTokens) =
      [["\"use strict\"", ";"]] := by
    decide +kernel
  refine ⟨lower_strict, fun all => ?_, directive, by decide⟩
  have describes := (strictFile.file_yields strictTokens).of_ok lower_strict
  have none := (Json.written_iff describes.functions).1 all
  rw [List.flatMap_eq_nil_iff.2 none] at directive
  cases directive

end ParsedSource

end Flowgraph
