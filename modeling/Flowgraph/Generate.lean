import Flowgraph.Construct
import Flowgraph.Prune
import Flowgraph.Syntax.Lowering

/-!
# From source files to pruned programs
-/

namespace Flowgraph

/-- What pruning did to the graph of a function. -/
structure FunctionReport where
  name : String
  report : PruneReport
  deriving DecidableEq, Repr, Inhabited

/-- A pruned program and how it came about. -/
structure Generation where
  program : Program
  reports : List FunctionReport
  deriving Inhabited

/-- The pruned graph of a function. -/
def SourceFunction.prunedGraph (f : SourceFunction) : Except Fault (Graph × PruneReport) := do
  match Graph.prune (← f.graph) with
  | .ok report g => return (g, report)
  | .error fault _ => throw fault

/-- The functions that are wanted; an empty list of names stands for all of them. -/
def SourceProgram.select (p : SourceProgram) (names : List String) : List SourceFunction :=
  if names.isEmpty then p.functions else p.functions.filter (names.contains ·.name)

/-- Build and prune the graphs of the wanted functions. -/
def SourceProgram.generate (p : SourceProgram) (sourceFile : String)
    (names : List String := []) : Except Fault Generation := do
  let built ← (p.select names).mapM fun f => return (f.name, ← f.prunedGraph)
  return {
    program := {
      sourceFile
      globals := Program.globalLines p.globals
      functions := built.map (·.2.1) }
    reports := built.map fun (name, _, report) => { name, report } }

/-- Why no program could be generated. -/
inductive Failure where
  /-- The source file is at fault. -/
  | source (error : SourceError)
  /-- The graph of a function could not be built or pruned. -/
  | graph (fault : Fault)
  deriving DecidableEq, Repr, Inhabited

/-- The text that tells a reader what went wrong. -/
def Failure.message : Failure → String
  | .source error => error.message
  | .graph fault => fault.message

/-- Which functions of a file are wanted, and how the file is read. -/
structure GenerateOptions extends ParseOptions where
  /-- The names of the wanted functions; an empty list stands for all of them. -/
  functions : List String := []
  deriving DecidableEq, Repr, Inhabited

/-- The structured form of a source text. -/
def SourceProgram.ofText (parser : Parser) (source : String) (options : ParseOptions) :
    Except SourceError SourceProgram := do
  (← ParsedSource.ofText parser source options).lower

/-- Read a source text, and build and prune the graphs of the wanted functions. -/
def Generation.ofText (parser : Parser) (sourceFile source : String)
    (options : GenerateOptions) : Except Failure Generation := do
  let program ← (SourceProgram.ofText parser source options.toParseOptions).mapError .source
  (program.generate sourceFile options.functions).mapError .graph

end Flowgraph
