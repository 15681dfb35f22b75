import Flowgraph.Syntax.Token

/-!
# Parsers

What a parser is asked to do and what it answers.  Reading a source file takes any parser;
a parser that meets malformed source may say where.
-/

namespace Flowgraph

/-- How source text is read. -/
structure ParseOptions where
  /-- Accept type annotations. -/
  typescript : Bool := true
  /-- Accept markup in expressions. -/
  jsx : Bool := false
  /-- The name that messages give the file. -/
  sourceFilename : Option String := none
  deriving DecidableEq, Repr, Inhabited

/-- An extension of the language that a parser is told to accept. -/
inductive Extension where
  | typescript
  | jsx
  deriving DecidableEq, Repr, Inhabited

def Extension.name : Extension → String
  | .typescript => "typescript"
  | .jsx => "jsx"

/-- What a parser is asked to do. -/
structure ParseRequest where
  sourceType : String := "module"
  sourceFilename : Option String
  /-- Answer the tokens too. -/
  tokens : Bool := true
  extensions : List Extension
  deriving DecidableEq, Repr, Inhabited

/-- What the options ask of a parser. -/
def ParseOptions.request (options : ParseOptions) : ParseRequest where
  sourceFilename := options.sourceFilename
  extensions :=
    (if options.typescript then [.typescript] else []) ++ (if options.jsx then [.jsx] else [])

/-- Why a parser gave up. -/
inductive ParseFailure where
  /-- The source is malformed, at a known place or not. -/
  | malformed (message : String) (location : Option Location)
  /-- The parser itself failed. -/
  | failed (message : String)
  deriving DecidableEq, Repr, Inhabited

/-- Reads a source text. -/
abbrev Parser := ParseRequest → String → Except ParseFailure SyntaxFile

/-- Why a source file has no statements to build graphs from. -/
inductive SourceError where
  /-- The source is malformed. -/
  | malformed (message : String) (location : Location)
  /-- A function holds a statement of a kind that graphs are not built for. -/
  | unsupported (kind : String) (location : Location)
  /-- The parser failed. -/
  | parser (message : String)
  deriving DecidableEq, Repr, Inhabited

namespace SourceError

/-- The text that tells a reader what is wrong. -/
def message : SourceError → String
  | .malformed message _ => message
  | .unsupported kind _ => "Unsupported statement: " ++ kind
  | .parser message => message

/-- The place in the source that the error points at. -/
def location? : SourceError → Option Location
  | .malformed _ location | .unsupported _ location => some location
  | .parser _ => none

end SourceError

/-- A place that is not known. -/
def Location.unknown : Location := ⟨0, 0⟩

/-- A parsed source and its tokens. -/
structure ParsedSource where
  file : SyntaxFile
  tokens : Array Token
  deriving Inhabited

/-- Parse a source text. -/
def ParsedSource.ofText (parser : Parser) (source : String) (options : ParseOptions) :
    Except SourceError ParsedSource :=
  match parser options.request source with
  | .ok file => .ok { file, tokens := Token.ofSpans source file.spans }
  | .error (.malformed message location) =>
    .error (.malformed message (location.getD .unknown))
  | .error (.failed message) => .error (.parser message)

end Flowgraph
