import Flowgraph.Source.Expression

/-!
# Reading source files

Reads the statements of a source file from its lexemes.  Expressions, types and the bodies of
classes are passed over; of statements it is found out what they are and what they cover.
-/

namespace Flowgraph.Source

namespace Read

/-! ## Parts of statements -/

/-- Take a name or a pattern. -/
def binding : Read Unit := do
  let l ← peek
  if l.kind == .word then discard take
  else if l.isMark "[" || l.isMark "\x7b" then discard group
  else failAt l

/-- Take the initial value of a binding, if there is one. -/
def initial (typed : Bool) : Read Unit := do
  if ← tryMark "=" then discard (expression typed true)

/-- Take the variables of a declaration, at most `fuel` of them. -/
def bindings (typed : Bool) : (fuel : Nat) → Read Unit
  | 0 => return
  | fuel + 1 => do
    binding
    let _ ← tryMark "!"
    let _ ← annotation? typed
    initial typed
    if ← tryMark "," then bindings typed fuel

/-- Take a parameter. -/
def parameter (typed : Bool) : Read Extent := do
  let first ← peek
  let _ ← tryMark "..."
  binding
  let question ← peek
  if ← tryMark "?" then unless typed do throw (expected "," question.location)
  let _ ← annotation? typed
  initial typed
  extentFrom first

/-- Take the parameters up to the closing bracket, at most `fuel` of them. -/
def parametersRest (typed : Bool) : (fuel : Nat) → Read (List Extent)
  | 0 => return []
  | fuel + 1 => do
    if ← tryMark ")" then return []
    let first ← parameter typed
    unless (← peek).isMark ")" do mark ","
    return first :: (← parametersRest typed fuel)

/-- What comes behind the keyword of a function. -/
structure Signature where
  name : Option String
  parameters : List Extent
  returnType : Option Extent

/-- Take a function from its keyword up to its body. -/
def signature (typed : Bool) : Read Signature := do
  word "function"
  let _ ← tryMark "*"
  let name ← peek
  let named := name.kind == .word
  if named then discard take
  let angle ← peek
  if angle.isMark "<" then
    unless typed do throw (expected "(" angle.location)
    let (taken, rest) ← throughAngles 0 [] (← ahead)
    skip taken rest
  mark "("
  let parameters ← parametersRest typed ((← ahead).length + 1)
  let returnType ← annotation? typed
  return {
    name := if named then some name.text else none
    parameters
    returnType := returnType >>= clauseExtent? }

/-- Take everything up to the next group in braces, and the group. -/
def throughBraces : (fuel : Nat) → Read Unit
  | 0 => return
  | fuel + 1 => do
    let l ← peek
    if l.isMark "\x7b" then discard group
    else if l.isMark "<" then
      let (taken, rest) ← throughAngles 0 [] (← ahead)
      skip taken rest
      throughBraces fuel
    else if l.closer?.isSome then
      let _ ← group
      throughBraces fuel
    else
      let _ ← take
      throughBraces fuel

/-- Take everything up to the semicolon, or up to the brace that closes the block. -/
def throughSemicolon : (fuel : Nat) → Read Unit
  | 0 => return
  | fuel + 1 => do
    let l ← peek
    if l.kind == .finish || l.isCloser then return
    if ← tryMark ";" then return
    if l.closer?.isSome then discard group else discard take
    throughSemicolon fuel

/-- Take the directives at the start of a body: strings that stand as statements. -/
def directives : (fuel : Nat) → Read (List Extent)
  | 0 => return []
  | fuel + 1 => do
    let l ← peek
    if l.kind == .string && (← peekSecond).isMark ";" then
      let _ ← take
      let _ ← take
      let extent ← extentFrom l
      return extent :: (← directives fuel)
    return []

/-- Take a condition in brackets. -/
def condition (typed : Bool) : Read Extent := do
  mark "("
  let clause ← expression typed false
  mark ")"
  return (clauseExtent? clause).getD {}

/-- The lexemes of a group that stand outside its inner brackets. -/
def outerLexemes (depth : Nat) : List Lexeme → List Lexeme
  | [] => []
  | l :: rest =>
    if l.closer?.isSome then outerLexemes (depth + 1) rest
    else if l.isCloser then outerLexemes (depth - 1) rest
    else if depth = 0 then l :: outerLexemes depth rest
    else outerLexemes depth rest

/-- The kind of a loop over the members of something, for the header of such a loop. -/
def memberLoop? (header : List Lexeme) : Option String :=
  let outer := outerLexemes 0 header
  if outer.any (·.isMark ";") then none
  else
    ((outer.drop 1).find? fun l => l.isWord "in" || l.isWord "of").map fun l =>
      if l.text == "in" then "ForInStatement" else "ForOfStatement"

/-- Take a clause of a `for` header up to the mark `stop`. -/
def clause (typed : Bool) (stop : String) : Read (Option Extent) := do
  let first ← peek
  if ← tryMark stop then return none
  if first.isWord "var" || first.isWord "let" || first.isWord "const" then
    let _ ← take
    bindings typed (← ahead).length
    let extent ← extentFrom first
    mark stop
    return some extent
  let clause ← expression typed false
  mark stop
  return clauseExtent? clause

/-- Take a statement that goes on up to its semicolon. -/
def plain (first : Lexeme) (body : Read Unit) : Read Tree := do
  body
  endStatement
  return .plain (← extentFrom first)

/-- Take a statement of a kind that graphs are not built for. -/
def other (first : Lexeme) (kind : String) (body : Read Unit) : Read Tree := do
  body
  return .other (← extentFrom first) kind

/-- Take a declaration that begins with words of its own, if there is one. -/
def declaration? (typed : Bool) (first second : Lexeme) : Read (Option Tree) := do
  let fuel := (← ahead).length
  let named := second.kind == .word && !binaryWords.contains second.text
  match first.text with
  | "class" => return some (← other first "ClassDeclaration" (throughBraces fuel))
  | "enum" => return some (← other first "TSEnumDeclaration" (throughBraces fuel))
  | "const" =>
    if second.isWord "enum" then
      return some (← other first "TSEnumDeclaration" (throughBraces fuel))
    return none
  | "abstract" =>
    if second.isWord "class" then
      return some (← other first "ClassDeclaration" (throughBraces fuel))
    return none
  | "interface" =>
    if named then return some (← other first "TSInterfaceDeclaration" (throughBraces fuel))
    return none
  | "namespace" | "module" =>
    if named || second.kind == .string then
      return some (← other first "TSModuleDeclaration" (throughBraces fuel))
    return none
  | "type" =>
    if !named then return none
    unless typed do throw (unexpected first.behind)
    return some (← other first "TSTypeAliasDeclaration" (throughSemicolon fuel))
  | _ => return none

/-- Take a function declaration inside a function, from its first word. -/
def innerFunction (typed : Bool) (first : Lexeme) : Read Tree := do
  let _ ← tryWord "async"
  let _ ← signature typed
  if (← peek).isMark "\x7b" then other first "FunctionDeclaration" (discard group)
  else other first "TSDeclareFunction" endStatement

/-! ## Statements -/

mutual

/-- Take a statement. -/
def statement (typed : Bool) : (fuel : Nat) → Read Tree
  | 0 => do failAt (← peek)
  | fuel + 1 => do
    let first ← peek
    let second ← peekSecond
    if first.isMark "\x7b" then
      let _ ← take
      let body ← statements typed fuel
      mark "\x7d"
      return .block (← extentFrom first) [] body
    if first.isMark ";" then
      let _ ← take
      return .plain (← extentFrom first)
    if first.kind != .word then
      return ← plain first (discard (expression typed false))
    if second.isMark ":" && !reservedWords.contains first.text then
      let _ ← take
      let _ ← take
      return ← other first "LabeledStatement" (discard (statement typed fuel))
    if let some tree ← declaration? typed first second then return tree
    if first.text == "function" || (first.text == "async" && second.isWord "function") then
      return ← innerFunction typed first
    match first.text with
    | "if" =>
      let _ ← take
      let test ← condition typed
      let consequent ← statement typed fuel
      let alternate ←
        if ← tryWord "else" then pure (some (← statement typed fuel)) else pure none
      return .branch (← extentFrom first) test consequent alternate
    | "while" =>
      let _ ← take
      let test ← condition typed
      let body ← statement typed fuel
      return .whileLoop (← extentFrom first) test body
    | "for" =>
      let _ ← take
      let each ← tryWord "await"
      let bracket ← peek
      unless bracket.isMark "(" do throw (expected "(" bracket.location)
      let (header, _) ← throughBrackets [")"] [] ((← ahead).drop 1)
      match memberLoop? header.dropLast with
      | some kind =>
        let _ ← group
        other first kind (discard (statement typed fuel))
      | none =>
        if each then failAt bracket
        mark "("
        let init ← clause typed ";"
        let test ← clause typed ";"
        let update ← clause typed ")"
        let body ← statement typed fuel
        return .forLoop (← extentFrom first) init test update body
    | "return" =>
      let _ ← take
      let l ← peek
      unless l.isMark ";" || l.isMark "\x7d" || l.kind == .finish do
        discard (expression typed false)
      endStatement
      return .ret (← extentFrom first)
    | "var" | "let" | "const" =>
      plain first do
        let _ ← take
        bindings typed (← ahead).length
    | "debugger" => plain first (discard take)
    | "break" | "continue" =>
      let kind := if first.text == "break" then "BreakStatement" else "ContinueStatement"
      other first kind do
        let _ ← take
        if (← peek).kind == .word then discard take
        endStatement
    | "throw" =>
      other first "ThrowStatement" do
        let _ ← take
        let _ ← expression typed false
        endStatement
    | "do" =>
      other first "DoWhileStatement" do
        let _ ← take
        let _ ← statement typed fuel
        word "while"
        let _ ← condition typed
        discard (tryMark ";")
    | "switch" =>
      other first "SwitchStatement" do
        let _ ← take
        let _ ← condition typed
        let brace ← peek
        unless brace.isMark "\x7b" do throw (expected "\x7b" brace.location)
        discard group
    | "try" =>
      other first "TryStatement" do
        let _ ← take
        block typed fuel
        let caught ← tryWord "catch"
        if caught then
          if (← peek).isMark "(" then discard group
          block typed fuel
        let l ← peek
        if ← tryWord "finally" then block typed fuel
        else unless caught do failAt l
    | "declare" =>
      if second.kind == .word then
        let _ ← take
        let inner ← statement typed fuel
        let extent ← extentFrom first
        match inner with
        | .other _ kind => return .other extent kind
        | _ => return .plain extent
      plain first (discard (expression typed false))
    | "import" =>
      unless second.isMark "(" || second.isMark "." do failAt first
      plain first do
        let _ ← take
        let (taken, rest) ←
          throughExpression false typed { operand := .given } [] [] (← ahead)
        skip taken rest
    | _ => plain first (discard (expression typed false))

/-- Take the statements of a block up to its closing brace. -/
def statements (typed : Bool) : (fuel : Nat) → Read (List Tree)
  | 0 => return []
  | fuel + 1 => do
    if (← peek).isMark "\x7d" then return []
    let first ← statement typed fuel
    return first :: (← statements typed fuel)

/-- Take a block in braces. -/
def block (typed : Bool) : (fuel : Nat) → Read Unit
  | 0 => return
  | fuel + 1 => do
    mark "\x7b"
    let _ ← statements typed fuel
    mark "\x7d"

end

/-! ## Files -/

/-- Take a function at file scope, or a declaration of one without a body.  `first` is where
the statement begins, which may be an `export` in front of it. -/
def function (typed : Bool) (first : Lexeme) : Read Item := do
  let keyword ← peek
  let _ ← tryWord "async"
  let s ← signature typed
  let brace ← peek
  if ← tryMark "\x7b" then
    let fuel := 2 * (← ahead).length + 2
    let directives ← directives fuel
    let body ← statements typed fuel
    mark "\x7d"
    return .function {
      extent := ← extentFrom keyword
      name := s.name
      returnType := s.returnType
      parameters := s.parameters
      block := ← extentFrom brace
      directives
      body }
  unless typed do throw (expected "\x7b" brace.location)
  endStatement
  return .global (← extentFrom first)

/-- A function begins at the lexeme `first`, which `second` follows. -/
def beginsFunction (first second : Lexeme) : Bool :=
  first.isWord "function" || (first.isWord "async" && second.isWord "function")

/-- Take an `import`, or an `export` that declares nothing. -/
def moduleStatement (first : Lexeme) : Read Item := do
  throughSemicolon (← ahead).length
  return .global (← extentFrom first)

/-- Take a statement at file scope. -/
def item (typed : Bool) : Read Item := do
  let first ← peek
  let second ← peekSecond
  let fuel := 2 * (← ahead).length + 2
  if beginsFunction first second then function typed first
  else if first.isWord "import" && !second.isMark "(" && !second.isMark "." then
    moduleStatement first
  else if first.isWord "export" then
    let _ ← take
    let byDefault ← tryWord "default"
    let l ← peek
    if beginsFunction l (← peekSecond) then function typed first
    else if l.isMark "\x7b" || l.isMark "*" || l.isMark "=" || l.isWord "import" || l.isWord "as"
        || (l.isWord "type" && ((← peekSecond).isMark "\x7b" || (← peekSecond).isMark "*")) then
      if byDefault then
        let _ ← expression typed false
        endStatement
        return .global (← extentFrom first)
      moduleStatement first
    else if byDefault && !l.isWord "class" && !l.isWord "abstract" && !l.isWord "interface" then
      let _ ← expression typed false
      endStatement
      return .global (← extentFrom first)
    else
      let _ ← statement typed fuel
      return .global (← extentFrom first)
  else
    let _ ← statement typed fuel
    return .global (← extentFrom first)

/-- Take the statements of a file, at most `fuel` of them. -/
def items (typed : Bool) : (fuel : Nat) → Read (List Item)
  | 0 => return []
  | fuel + 1 => do
    if (← peek).kind == .finish then return []
    let first ← item typed
    return first :: (← items typed fuel)

end Read

/-- Parse a source text. -/
def parse : Parser := fun request source => do
  let all ← lexemes source
  let typed := request.extensions.contains .typescript
  let before : Lexeme := { kind := .finish, text := "", start := {}, stop := 0 }
  let start : Cursor := { rest := all, last := before }
  let fuel := all.length + 1
  let ((directives, items), _) ←
    (do return (← Read.directives fuel, ← Read.items typed fuel) : Read _).run start
  return {
    directives
    items
    spans := (all.filter (·.kind != .finish)).map fun l => (l.start.offset, l.stop) }

end Flowgraph.Source
