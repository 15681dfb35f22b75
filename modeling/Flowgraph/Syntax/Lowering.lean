import Flowgraph.Statement
import Flowgraph.Syntax.Parser

/-!
# Lowering

Turns the syntax tree of a file into structured statements.  Functions at file scope become
functions, everything else there is kept as the list of its tokens.  Inside a function only
blocks, plain statements, `if`, `while`, `for` and `return` are accepted.
-/

namespace Flowgraph

mutual

/-- The structured statement for a tree. -/
def Tree.lower (tokens : Array Token) : Tree → Except SourceError Statement
  | .block extent _ body => do
    return .sequence (← lowerAll tokens body) extent.location
  | .plain extent => return .simple (Token.within tokens extent) extent.location
  | .branch extent test consequent alternate => do
    return .branch (Token.within tokens test) (← consequent.lower tokens)
      (← lowerOption tokens alternate) extent.location
  | .whileLoop extent test body => do
    return .whileLoop (Token.within tokens test) (← body.lower tokens) extent.location
  | .forLoop extent init test update body => do
    return .forLoop (init.map (Token.within tokens)) ((test.map (Token.within tokens)).getD [])
      (update.map (Token.within tokens)) (← body.lower tokens) extent.location
  | .ret extent => return .ret (Token.within tokens extent) extent.location
  | .other extent kind => throw (.unsupported kind (extent.location.getD .unknown))

/-- The structured statements for trees in a row. -/
def Tree.lowerAll (tokens : Array Token) : List Tree → Except SourceError (List Statement)
  | [] => return []
  | tree :: rest => do
    let first ← tree.lower tokens
    return first :: (← lowerAll tokens rest)

/-- The structured statement for an arm, if there is one. -/
def Tree.lowerOption (tokens : Array Token) :
    Option Tree → Except SourceError (Option Statement)
  | none => return none
  | some tree => return some (← tree.lower tokens)

end

/-- The tokens of a parameter list: all that stands from the first parameter to the last. -/
def FunctionTree.parameterTokens (tokens : Array Token) (f : FunctionTree) : List String :=
  match f.parameters.head?, f.parameters.getLast? with
  | some first, some last => Token.within tokens { start := first.start, stop := last.stop }
  | _, _ => []

/-- The structured form of a function. -/
def FunctionTree.lower (tokens : Array Token) (f : FunctionTree) :
    Except SourceError SourceFunction := do
  return {
    name := f.name.getD "default"
    returnType := (f.returnType.map (Token.within tokens)).getD []
    parameters := f.parameterTokens tokens
    body := .sequence (← Tree.lowerAll tokens f.body) f.block.location
    location := f.extent.location }

/-- The structured form of a file. -/
def ParsedSource.lower (p : ParsedSource) : Except SourceError SourceProgram := do
  let functions ← p.file.items.filterMapM fun item =>
    match item with
    | .function tree => return some (← tree.lower p.tokens)
    | .global _ => return none
  let globals := p.file.items.filterMap fun item =>
    match item with
    | .function _ => none
    | .global extent => some (Token.within p.tokens extent)
  return {
    globals := p.file.directives.map (Token.within p.tokens) ++ globals
    functions }

end Flowgraph
