import Flowgraph.Json
import Flowgraph.Syntax.Tree

/-!
# Syntax trees as JSON

Reads the tree of a source file from its JSON form, in which every node names its kind and
says where it starts and ends.  A list of tokens may hold comments and foreign values, which
are passed over.
-/

namespace Flowgraph

/-- The place that a `loc` field gives. -/
def Location.ofJson? (j : Json) : Option Location := do
  let line ← j.field? "line" >>= Json.int?
  let column ← j.field? "column" >>= Json.int?
  return { line, column }

/-- What a node covers. -/
def Extent.ofJson (j : Json) : Extent where
  start := j.field? "start" >>= Json.int?
  stop := j.field? "end" >>= Json.int?
  location := j.field? "loc" >>= (Json.field? · "start") >>= Location.ofJson?

namespace Json

/-- The kind of a node. -/
def kind (j : Json) : String := ((j.field? "type") >>= string?).getD ""

/-- The node in a field, if there is one. -/
def node? (j : Json) (key : String) : Option Json :=
  match j.field? key with
  | some .null => none
  | other => other

/-- The nodes in a field. -/
def nodes (j : Json) (key : String) : List Json := ((j.field? key) >>= array?).getD []

end Json

/-- Read a statement that is nested less than `fuel` levels deep. -/
def Tree.ofJson : (fuel : Nat) → Json → Tree
  | 0, j => .other (Extent.ofJson j) j.kind
  | fuel + 1, j =>
    let extent := Extent.ofJson j
    let child := fun (key : String) => Tree.ofJson fuel ((j.node? key).getD .null)
    let part := fun (key : String) => (j.node? key).map Extent.ofJson
    match j.kind with
    | "BlockStatement" =>
      .block extent ((j.nodes "directives").map Extent.ofJson)
        ((j.nodes "body").map (Tree.ofJson fuel))
    | "VariableDeclaration" | "ExpressionStatement" | "EmptyStatement" | "DebuggerStatement" =>
      .plain extent
    | "IfStatement" =>
      .branch extent ((part "test").getD {}) (child "consequent")
        ((j.node? "alternate").map (Tree.ofJson fuel))
    | "WhileStatement" => .whileLoop extent ((part "test").getD {}) (child "body")
    | "ForStatement" => .forLoop extent (part "init") (part "test") (part "update") (child "body")
    | "ReturnStatement" => .ret extent
    | kind => .other extent kind

/-- What an annotation covers, its colon apart. -/
def annotation? (j : Json) : Option Extent :=
  if j.kind == "TSTypeAnnotation" || j.kind == "TypeAnnotation" then
    some (((j.node? "typeAnnotation").map Extent.ofJson).getD {})
  else none

/-- Read the declaration of a function. -/
def FunctionTree.ofJson (fuel : Nat) (j : Json) : FunctionTree :=
  let block := (j.node? "body").getD .null
  { extent := Extent.ofJson j
    name := j.node? "id" >>= (Json.field? · "name") >>= Json.string?
    returnType := j.node? "returnType" >>= annotation?
    parameters := (j.nodes "params").map Extent.ofJson
    block := Extent.ofJson block
    directives := (block.nodes "directives").map Extent.ofJson
    body := (block.nodes "body").map (Tree.ofJson fuel) }

/-- Read a statement at file scope.  A function may be exported by name or as the default. -/
def Item.ofJson (fuel : Nat) (j : Json) : Item :=
  let declared :=
    match j.kind with
    | "FunctionDeclaration" => some j
    | "ExportNamedDeclaration" | "ExportDefaultDeclaration" =>
      (j.node? "declaration").filter (·.kind == "FunctionDeclaration")
    | _ => none
  match declared with
  | some f => .function (FunctionTree.ofJson fuel f)
  | none => .global (Extent.ofJson j)

/-- The offsets of a token; `none` for a comment or a foreign value. -/
def span? (j : Json) : Option (Int × Int) :=
  if j.kind == "CommentBlock" || j.kind == "CommentLine" then none
  else do
    let start ← j.field? "start" >>= Json.int?
    let stop ← j.field? "end" >>= Json.int?
    return (start, stop)

mutual

/-- How deep the values inside a value are nested. -/
def Json.depth : Json → Nat
  | .array items => Json.itemsDepth items + 1
  | .object fields => Json.fieldsDepth fields + 1
  | _ => 0

def Json.itemsDepth : List Json → Nat
  | [] => 0
  | item :: items => max item.depth (Json.itemsDepth items)

def Json.fieldsDepth : List (String × Json) → Nat
  | [] => 0
  | (_, value) :: fields => max value.depth (Json.fieldsDepth fields)

end

/-- Read a file: its program and its tokens. -/
def SyntaxFile.ofJson (j : Json) : SyntaxFile :=
  let program := (j.node? "program").getD .null
  { directives := (program.nodes "directives").map Extent.ofJson
    items := (program.nodes "body").map (Item.ofJson (j.depth + 1))
    spans := (j.nodes "tokens").filterMap span? }

end Flowgraph
