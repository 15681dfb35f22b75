import Flowgraph.Proofs.Nodes
import Flowgraph.Syntax.Lowering
import Mathlib.Data.List.Forall2
import Mathlib.Data.Option.Basic

/-!
# What is accepted

A file is refused because of the first statement in one of its functions, in source order, that is of
a kind which functions are not made of.  A file without such a statement is accepted, and every
statement of its syntax tree has its counterpart in the program.

Both are said of every part of the tree at once: `Yields` takes the first thing that is wrong with the
part, if anything is, and what else its answer is like.
-/

namespace Flowgraph

/-- An answer: the error if something is wrong, and something of the kind that is wanted if not. -/
def Yields {ε α : Type} (wrong : Option ε) (P : α → Prop) (answer : Except ε α) : Prop :=
  match wrong with
  | some e => answer = .error e
  | none => ∃ a, answer = .ok a ∧ P a

namespace Yields

variable {ε α β : Type} {wrong wrong' : Option ε} {P : α → Prop} {Q : β → Prop}
  {answer : Except ε α} {f : α → Except ε β} {a : α}

theorem pure (holds : P a) : Yields (none : Option ε) P (Pure.pure a) := ⟨a, rfl, holds⟩

/-- What is wrong with the first part counts before what is wrong with the second. -/
theorem bind (first : Yields wrong P answer) (second : ∀ a, P a → Yields wrong' Q (f a)) :
    Yields (wrong.or wrong') Q (answer >>= f) := by
  cases wrong with
  | some e =>
    have failed : answer = .error e := first
    rw [failed]
    exact rfl
  | none =>
    obtain ⟨a, rfl, holds⟩ := first
    exact second a holds

theorem map {k : α → β} (first : Yields wrong P answer) (each : ∀ a, P a → Q (k a)) :
    Yields wrong Q (answer >>= fun a => Pure.pure (k a)) := by
  have both : Yields (wrong.or none) Q (answer >>= fun a => Pure.pure (k a)) :=
    first.bind fun a holds => Yields.pure (each a holds)
  rwa [Option.or_none] at both

theorem of_ok (yields : Yields wrong P answer) (ok : answer = .ok a) : P a := by
  cases wrong with
  | some e => cases ok.symm.trans yields
  | none =>
    obtain ⟨b, eq, holds⟩ := yields
    cases ok.symm.trans eq
    exact holds

end Yields

namespace Json

variable {j : Json} {tokens : Array Token} {fuel : Nat}

/-- Where a node starts, if that is known. -/
def location? (j : Json) : Option Location := (Extent.ofJson j).location

/-- The texts of the tokens of a node. -/
def texts (tokens : Array Token) (j : Json) : List String := Token.within tokens (Extent.ofJson j)

/-- The statement is what a node stands for. -/
inductive Mirrors (tokens : Array Token) : Json → Statement → Prop where
  | block {j : Json} {body : List Statement} (kind : j.kind = "BlockStatement")
      (each : List.Forall₂ (Mirrors tokens) (j.nodes "body") body) :
      Mirrors tokens j (.sequence body j.location?)
  | plain {j : Json} (kind : j.kind ∈ plainKinds) :
      Mirrors tokens j (.simple (j.texts tokens) j.location?)
  | branch {j : Json} {consequent : Statement} {alternate : Option Statement}
      (kind : j.kind = "IfStatement") (thenArm : Mirrors tokens (j.child "consequent") consequent)
      (elseArm : Option.Rel (Mirrors tokens) (j.node? "alternate") alternate) :
      Mirrors tokens j
        (.branch ((j.child "test").texts tokens) consequent alternate j.location?)
  | whileLoop {j : Json} {body : Statement} (kind : j.kind = "WhileStatement")
      (inside : Mirrors tokens (j.child "body") body) :
      Mirrors tokens j (.whileLoop ((j.child "test").texts tokens) body j.location?)
  | forLoop {j : Json} {body : Statement} (kind : j.kind = "ForStatement")
      (inside : Mirrors tokens (j.child "body") body) :
      Mirrors tokens j (.forLoop ((j.node? "init").map (texts tokens))
        (((j.node? "test").map (texts tokens)).getD []) ((j.node? "update").map (texts tokens))
        body j.location?)
  | ret {j : Json} (kind : j.kind = "ReturnStatement") :
      Mirrors tokens j (.ret (j.texts tokens) j.location?)

/-- The error for a statement of a kind that functions are not made of. -/
def refusal? (j : Json) : Option SourceError :=
  if j.kind ∈ supportedKinds then none
  else some (.unsupported j.kind (j.location?.getD ⟨0, 0⟩))

/-- The error for the first such statement in a statement. -/
def firstRefusal? (j : Json) : Option SourceError := j.statements.findSome? refusal?

theorem findSome?_cons_or {α β : Type} (f : α → Option β) (a : α) (l : List α) :
    (a :: l).findSome? f = (f a).or (l.findSome? f) := by
  rw [List.findSome?_cons]
  cases f a <;> rfl

theorem findSome?_flatMap_statements (js : List Json) :
    (js.flatMap statements).findSome? refusal? = js.findSome? firstRefusal? := by
  induction js with
  | nil => rfl
  | cons j js ih => rw [List.flatMap_cons, List.findSome?_append, ih, findSome?_cons_or]; rfl

theorem firstRefusal?_eq (j : Json) :
    j.firstRefusal? = j.refusal?.or (j.inner.findSome? firstRefusal?) := by
  rw [firstRefusal?, statements_eq, findSome?_cons_or, findSome?_flatMap_statements]

theorem refusal?_eq_none : j.refusal? = none ↔ j.kind ∈ supportedKinds := by
  unfold refusal?
  split <;> simp [*]

theorem extent_child (j : Json) (key : String) :
    Extent.ofJson (j.child key) = ((j.node? key).map Extent.ofJson).getD {} := by
  unfold child
  cases j.node? key <;> rfl

theorem ofJson_plain (kind : j.kind ∈ plainKinds) :
    Tree.ofJson (fuel + 1) j = .plain (Extent.ofJson j) := by
  simp only [plainKinds, List.mem_cons, List.not_mem_nil, or_false] at kind
  obtain kind | kind | kind | kind := kind <;> simp only [Tree.ofJson, kind]

theorem ofJson_other (kind : j.kind ∉ supportedKinds) :
    Tree.ofJson (fuel + 1) j = .other (Extent.ofJson j) j.kind := by
  simp only [supportedKinds, plainKinds, List.cons_append, List.nil_append, List.mem_cons,
    List.not_mem_nil, or_false, not_or] at kind
  simp [Tree.ofJson, kind]

/-- The trees of nodes in a row are lowered one after the other. -/
theorem lowerAll_yields {js : List Json}
    (each : ∀ j ∈ js, Yields j.firstRefusal? (Mirrors tokens j)
      ((Tree.ofJson fuel j).lower tokens)) :
    Yields (js.findSome? firstRefusal?) (List.Forall₂ (Mirrors tokens) js)
      (Tree.lowerAll tokens (js.map (Tree.ofJson fuel))) := by
  induction js with
  | nil => exact .pure .nil
  -- the trees behind the first are lowered only if nothing is wrong with the first
  | cons j js ih =>
    rw [findSome?_cons_or, List.map_cons, Tree.lowerAll]
    have rest := ih fun j member => each j (List.mem_cons_of_mem _ member)
    exact (each j List.mem_cons_self).bind fun s mirrors =>
      rest.map fun body others => .cons mirrors others

theorem lowerOption_yields {j? : Option Json}
    (each : ∀ j ∈ j?, Yields j.firstRefusal? (Mirrors tokens j)
      ((Tree.ofJson fuel j).lower tokens)) :
    Yields (j?.toList.findSome? firstRefusal?) (Option.Rel (Mirrors tokens) j?)
      (Tree.lowerOption tokens (j?.map (Tree.ofJson fuel))) := by
  cases j? with
  | none => exact .pure .none
  | some j =>
    rw [Option.toList_some, findSome?_cons_or, List.findSome?_nil, Option.or_none]
    exact (each j rfl).map fun s mirrors => .some mirrors

/-- What the tree of a node is lowered to, read with fuel for everything in it. -/
theorem lower_yields (tokens : Array Token) (deep : j.depth < fuel) :
    Yields j.firstRefusal? (Mirrors tokens j) ((Tree.ofJson fuel j).lower tokens) := by
  induction fuel generalizing j with
  | zero => exact absurd deep (Nat.not_lt_zero _)
  | succ fuel ih =>
    -- what lies inside a node is less deep, so the fuel that is left suffices for it
    have inside : ∀ s ∈ j.inner, Yields s.firstRefusal? (Mirrors tokens s)
        ((Tree.ofJson fuel s).lower tokens) := fun s member =>
      ih (Nat.lt_of_lt_of_le (depth_of_mem_inner member) (Nat.le_of_lt_succ deep))
    rw [firstRefusal?_eq]
    cases j.shape with
    | block kind =>
      rw [inner_block kind] at inside ⊢
      rw [refusal?_eq_none.2 (by simp [kind, supportedKinds]), Option.none_or]
      simp only [Tree.ofJson, kind, Tree.lower]
      exact (lowerAll_yields inside).map fun body each => .block kind each
    | plain kind =>
      rw [inner_plain kind, refusal?_eq_none.2 (List.mem_append_left _ kind), ofJson_plain kind,
        Tree.lower]
      exact .pure (.plain kind)
    | branch kind =>
      rw [inner_branch kind] at inside ⊢
      rw [refusal?_eq_none.2 (by simp [kind, supportedKinds]), Option.none_or, findSome?_cons_or]
      simp only [Tree.ofJson, kind, Tree.lower, ← extent_child]
      refine (inside _ List.mem_cons_self).bind fun consequent thenArm => ?_
      refine (lowerOption_yields fun s found => ?_).map fun alternate elseArm =>
        .branch kind thenArm elseArm
      exact inside s (List.mem_cons_of_mem _ (Option.mem_toList.2 found))
    | whileLoop kind =>
      rw [inner_whileLoop kind] at inside ⊢
      rw [refusal?_eq_none.2 (by simp [kind, supportedKinds]), Option.none_or, findSome?_cons_or,
        List.findSome?_nil, Option.or_none]
      simp only [Tree.ofJson, kind, Tree.lower, ← extent_child]
      exact (inside _ List.mem_cons_self).map fun body loops => .whileLoop kind loops
    | forLoop kind =>
      rw [inner_forLoop kind] at inside ⊢
      rw [refusal?_eq_none.2 (by simp [kind, supportedKinds]), Option.none_or, findSome?_cons_or,
        List.findSome?_nil, Option.or_none]
      simp only [Tree.ofJson, kind, Tree.lower, Option.map_map]
      exact (inside _ List.mem_cons_self).map fun body loops => .forLoop kind loops
    | ret kind =>
      rw [inner_ret kind, refusal?_eq_none.2 (by simp [kind, supportedKinds])]
      simp only [Tree.ofJson, kind, Tree.lower]
      exact .pure (.ret kind)
    | other kind =>
      rw [refusal?, if_neg kind, ofJson_other kind, Tree.lower, Option.some_or]
      exact rfl

/-! ## Functions and files -/

/-- The function that a statement at file scope declares, itself or by exporting it. -/
def declared? (j : Json) : Option Json :=
  if j.kind = "FunctionDeclaration" then some j
  else if j.kind = "ExportNamedDeclaration" ∨ j.kind = "ExportDefaultDeclaration" then
    (j.node? "declaration").filter (·.kind == "FunctionDeclaration")
  else none

/-- The statements in the block of a function. -/
def bodyOf (f : Json) : List Json := (f.child "body").nodes "body"

/-- The statements at file scope. -/
def items (ast : Json) : List Json := (ast.child "program").nodes "body"

/-- The functions of a file. -/
def functions (ast : Json) : List Json := ast.items.filterMap declared?

/-- All statements in the functions of a file, in source order. -/
def reached (ast : Json) : List Json := ast.functions.flatMap fun f => f.bodyOf.flatMap statements

/-- The function is what a declaration stands for. -/
structure Declares (tokens : Array Token) (f : Json) (fn : SourceFunction) : Prop where
  name : fn.name = (f.node? "id" >>= (field? · "name") >>= string?).getD "default"
  location : fn.location = f.location?
  body : ∃ body, fn.body = .sequence body (f.child "body").location? ∧
    List.Forall₂ (Mirrors tokens) f.bodyOf body

/-- The program is what a file stands for: there is an entry for each directive and for each
statement at file scope, functions and others each in source order. -/
structure Describes (tokens : Array Token) (ast : Json) (program : SourceProgram) : Prop where
  globals : program.globals =
    ((ast.child "program").nodes "directives" ++ ast.items.filter (·.declared?.isNone)).map
      (texts tokens)
  functions : List.Forall₂ (Declares tokens) ast.functions program.functions
  counted : program.globals.length + program.functions.length =
    ((ast.child "program").nodes "directives").length + ast.items.length

/-- The error for the first statement of a function that it cannot be made of. -/
def bodyRefusal? (f : Json) : Option SourceError := f.bodyOf.findSome? firstRefusal?

variable {f : Json} {js : List Json}

theorem depth_of_mem_bodyOf {s : Json} (member : s ∈ f.bodyOf) : s.depth < f.depth := by
  have inner := depth_of_mem_nodes member
  unfold child at inner
  cases found : f.node? "body" with
  | some block =>
    have outer := depth_node? found
    rw [found, Option.getD_some] at inner
    omega
  | none => simp [found, depth] at inner

theorem depth_declared? (declared : j.declared? = some f) : f.depth ≤ j.depth := by
  unfold declared? at declared
  split at declared
  · cases declared
    exact Nat.le_refl _
  · split at declared
    · exact Nat.le_of_lt (depth_node? (Option.filter_eq_some_iff.1 declared).1)
    · cases declared

theorem item_eq (fuel : Nat) (j : Json) : Item.ofJson fuel j =
    match j.declared? with
    | some f => .function (FunctionTree.ofJson fuel f)
    | none => .global (Extent.ofJson j) := by
  unfold Item.ofJson declared?
  by_cases function : j.kind = "FunctionDeclaration"
  · simp only [function, if_true]
  by_cases exported : j.kind = "ExportNamedDeclaration" ∨ j.kind = "ExportDefaultDeclaration"
  · rw [if_neg function, if_pos exported]
    obtain kind | kind := exported
    -- both kinds of export are read in the same way
    all_goals
      cases (j.node? "declaration").filter (·.kind == "FunctionDeclaration") <;> simp only [kind]
  · rw [if_neg function, if_neg exported]
    simp only [not_or] at exported
    split
    case h_1 kind => exact absurd kind function
    case h_2 kind => exact absurd kind exported.1
    case h_3 kind => exact absurd kind exported.2
    case h_4 => rfl

theorem function_yields (tokens : Array Token) (deep : f.depth < fuel) :
    Yields f.bodyRefusal? (Declares tokens f) ((FunctionTree.ofJson fuel f).lower tokens) := by
  have rows : Yields f.bodyRefusal? (List.Forall₂ (Mirrors tokens) f.bodyOf)
      (Tree.lowerAll tokens (f.bodyOf.map (Tree.ofJson fuel))) :=
    lowerAll_yields fun s member =>
      lower_yields tokens (Nat.lt_trans (depth_of_mem_bodyOf member) deep)
  exact rows.map fun body each => ⟨rfl, rfl, body, rfl, each⟩

/-- What a statement at file scope adds to the functions of the program. -/
def functionOf? (tokens : Array Token) (item : Item) : Except SourceError (Option SourceFunction) :=
  match item with
  | .function tree => return some (← tree.lower tokens)
  | .global _ => return none

theorem functions_yield (tokens : Array Token) (deep : ∀ j ∈ js, j.depth < fuel) :
    Yields ((js.filterMap declared?).findSome? bodyRefusal?)
      (List.Forall₂ (Declares tokens) (js.filterMap declared?))
      ((js.map (Item.ofJson fuel)).filterMapM (functionOf? tokens)) := by
  induction js with
  | nil => exact .pure .nil
  | cons j js ih =>
    have later := ih fun j member => deep j (List.mem_cons_of_mem _ member)
    rw [List.map_cons, List.filterMapM_cons, item_eq]
    cases declared : j.declared? with
    | none =>
      rw [List.filterMap_cons_none declared]
      exact later
    | some f =>
      rw [List.filterMap_cons_some declared, findSome?_cons_or]
      have shallow := Nat.lt_of_le_of_lt (depth_declared? declared) (deep j List.mem_cons_self)
      have first : Yields f.bodyRefusal? (fun fn? => ∃ fn, fn? = some fn ∧ f.Declares tokens fn)
          (functionOf? tokens (.function (FunctionTree.ofJson fuel f))) :=
        (function_yields tokens shallow).map fun fn declares => ⟨fn, rfl, declares⟩
      refine first.bind fun fn? ⟨fn, eq, declares⟩ => ?_
      subst eq
      exact later.map fun fns others => .cons declares others

/-- What a statement at file scope adds to the globals of the program. -/
def globalOf? (tokens : Array Token) (item : Item) : Option (List String) :=
  match item with
  | .function _ => none
  | .global extent => some (Token.within tokens extent)

theorem globals_eq (tokens : Array Token) (fuel : Nat) (js : List Json) :
    (js.map (Item.ofJson fuel)).filterMap (globalOf? tokens) =
      (js.filter (·.declared?.isNone)).map (texts tokens) := by
  rw [List.filterMap_map, ← List.filterMap_eq_map, ← List.filterMap_eq_filter,
    List.filterMap_filterMap]
  refine List.filterMap_congr fun j _ => ?_
  rw [Function.comp_apply, item_eq]
  cases declared : j.declared? <;> simp [Option.guard, declared, texts, globalOf?]

theorem length_filter_declared? (js : List Json) :
    (js.filter (·.declared?.isNone)).length + (js.filterMap declared?).length = js.length := by
  induction js with
  | nil => rfl
  | cons j js ih =>
    cases declared : j.declared? with
    | none => simp [declared]; omega
    | some f => simp [declared]; omega

theorem depth_of_mem_items {ast : Json} (member : j ∈ ast.items) : j.depth < ast.depth := by
  have inner := depth_of_mem_nodes member
  unfold child at inner
  cases found : ast.node? "program" with
  | some program =>
    have outer := depth_node? found
    rw [found, Option.getD_some] at inner
    omega
  | none => simp [found, depth] at inner

theorem file_yields (ast : Json) (tokens : Array Token) :
    Yields (ast.functions.findSome? bodyRefusal?) (ast.Describes tokens)
      (ParsedSource.lower ⟨SyntaxFile.ofJson ast, tokens⟩) := by
  have deep : ∀ j ∈ ast.items, j.depth < ast.depth + 1 := fun j member =>
    Nat.lt_succ_of_lt (depth_of_mem_items member)
  have globals : (SyntaxFile.ofJson ast).directives.map (Token.within tokens) ++
      (ast.items.map (Item.ofJson (ast.depth + 1))).filterMap (globalOf? tokens) =
      ((ast.child "program").nodes "directives" ++ ast.items.filter (·.declared?.isNone)).map
        (texts tokens) := by
    rw [globals_eq, List.map_append]
    exact congrArg (· ++ _) List.map_map
  refine (functions_yield tokens deep).map fun fns each => ⟨globals, each, ?_⟩
  have all := length_filter_declared? ast.items
  have functions : ast.functions.length = fns.length := each.length_eq
  refine (congrArg (·.length + fns.length) globals).trans ?_
  rw [List.length_map, List.length_append, ← functions, Json.functions]
  omega

section FirstRefusal

variable {α : Type} {P : α → Prop} {answer : Except SourceError α}
  (yields : Yields (js.findSome? refusal?) P answer)

include yields

end FirstRefusal

end Json

end Flowgraph
