import Flowgraph.Statement

/-!
# Syntax trees

The shape of a parsed source file, as far as graphs depend on it.  A tree holds no text: it
says which part of the source each piece covers.
-/

namespace Flowgraph

/-- The part of the source that a piece covers, and where the piece starts.  The offsets count
UTF-16 code units. -/
structure Extent where
  start : Option Int := none
  stop : Option Int := none
  location : Option Location := none
  deriving DecidableEq, Repr, Inhabited

/-- A statement inside a function. -/
inductive Tree where
  /-- A block: the directives at its start, and its statements. -/
  | block (extent : Extent) (directives : List Extent) (body : List Tree)
  /-- A declaration of variables, an expression, an empty statement or `debugger`. -/
  | plain (extent : Extent)
  | branch (extent : Extent) (test : Extent) (consequent : Tree) (alternate : Option Tree)
  | whileLoop (extent : Extent) (test : Extent) (body : Tree)
  /-- A `for` loop, any clause of which may be missing. -/
  | forLoop (extent : Extent) (init test update : Option Extent) (body : Tree)
  | ret (extent : Extent)
  /-- A statement of any other kind. -/
  | other (extent : Extent) (kind : String)
  deriving Inhabited

/-- The part of the source that a statement covers. -/
def Tree.extent : Tree → Extent
  | .block extent .. | .plain extent | .branch extent .. | .whileLoop extent ..
  | .forLoop extent .. | .ret extent | .other extent _ => extent

/-- The declaration of a function. -/
structure FunctionTree where
  extent : Extent
  /-- The name, unless the function is an anonymous default export. -/
  name : Option String
  /-- The return type, if there is an annotation. -/
  returnType : Option Extent
  parameters : List Extent
  /-- The block of the body. -/
  block : Extent
  directives : List Extent
  body : List Tree
  deriving Inhabited

/-- A statement at file scope. -/
inductive Item where
  /-- A function, exported or not. -/
  | function (tree : FunctionTree)
  /-- Anything else. -/
  | global (extent : Extent)
  deriving Inhabited

/-- A parsed source file. -/
structure SyntaxFile where
  /-- The directives at the start of the file. -/
  directives : List Extent
  items : List Item
  /-- The offsets of the tokens, as the parser gives them. -/
  spans : List (Int × Int)
  deriving Inhabited

end Flowgraph
