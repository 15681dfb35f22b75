import Flowgraph.Source.Cursor

/-!
# Expressions and types

Finds where an expression or a type ends.  Nothing is built: what matters is which lexemes
belong to it, and that nothing is missing where something is needed.  What stands between
brackets is passed over.
-/

namespace Flowgraph.Source

/-- What may come next in an expression. -/
inductive Operand where
  /-- An operand has to come. -/
  | needed
  /-- The name of a member has to come. -/
  | member
  /-- An operand may come, or the expression may end. -/
  | possible
  /-- An operand was read: an operator comes, or the expression ends. -/
  | given
  deriving DecidableEq, Repr, Inhabited

/-- Words that stand before an operand. -/
def unaryWords : List String := ["typeof", "void", "delete", "await"]

/-- Words behind which an operand may come or not. -/
def looseWords : List String :=
  ["yield", "async", "function", "class", "new", "keyof", "readonly", "unique", "asserts"]

/-- Words that stand between two operands. -/
def binaryWords : List String := ["in", "instanceof", "extends"]

/-- Words that cannot be operands. -/
def reservedWords : List String :=
  ["break", "case", "catch", "const", "continue", "debugger", "default", "do", "else", "enum",
    "export", "extends", "finally", "for", "if", "in", "instanceof", "return", "switch",
    "throw", "try", "var", "while", "with"]

/-- Words behind which a type comes. -/
def typeWords : List String := ["as", "satisfies", "is"]

/-! ## Type arguments -/

/-- Punctuators that may stand in a list of types, brackets apart. -/
def typeMarks : List String := [",", ".", "|", "&", "=>", "?", ":", "=", "-", "..."]

/-- Punctuators that can begin an expression. -/
def openingMarks : List String :=
  ["(", "[", "\x7b", "<", ">", "+", "-", "++", "--", "!", "~", "@"]

/-- How many lexemes a list of types in angle brackets has, for the lexemes behind its opening
bracket, and what follows the list.  `angles` angle brackets are open, and `depth` others. -/
def typeListLength? (angles depth : Nat) : List Lexeme → Option (Nat × List Lexeme)
  | [] => none
  | l :: rest =>
    let go := fun angles depth =>
      (typeListLength? angles depth rest).map fun (n, behind) => (n + 1, behind)
    if l.kind == .finish then none
    else if l.closer?.isSome then go angles (depth + 1)
    else if l.isCloser then if depth = 0 then none else go angles (depth - 1)
    else if 0 < depth || l.kind != .punctuator then go angles depth
    else if l.isMark "<" then go (angles + 1) depth
    else if l.isMark ">" then if angles ≤ 1 then some (1, rest) else go (angles - 1) depth
    else if typeMarks.contains l.text then go angles depth
    else none

/-- How many lexemes the type arguments behind an operand have, for the lexemes behind their
opening bracket.  Where an operand follows, the angle brackets are comparisons. -/
def typeArguments? (rest : List Lexeme) : Option Nat :=
  match typeListLength? 1 0 rest with
  | some (n, next :: _) =>
    if next.isMark "(" then some n
    else if next.kind == .punctuator && !openingMarks.contains next.text then some n
    else if next.kind == .finish then some n
    else none
  | _ => none

/-- How many lexemes the type parameters at the start of an operand have, for the lexemes behind
their opening bracket. -/
def typeParameters? (rest : List Lexeme) : Option Nat := (typeListLength? 1 0 rest).map (·.1)

/-! ## Expressions -/

/-- A state of reading an expression. -/
structure Reading where
  operand : Operand := .needed
  /-- How many question marks wait for their colon. -/
  pending : Nat := 0
  /-- How many of the lexemes ahead belong to a list of types. -/
  covered : Nat := 0

namespace Reading

/-- Nothing is missing. -/
def canEnd (r : Reading) : Bool := r.operand == .given || r.operand == .possible

/-- Read a word; `none` if the expression ends before it. -/
def word (r : Reading) (l : Lexeme) : Except ParseFailure (Option Reading) :=
  let next := fun operand => some { r with operand }
  match r.operand with
  | .member => return next .given
  | .given =>
    if binaryWords.contains l.text then return next .needed
    else if typeWords.contains l.text then return next .possible
    else return none
  | .possible =>
    if l.text == "void" then return next .possible
    else if unaryWords.contains l.text || binaryWords.contains l.text then return next .needed
    else if looseWords.contains l.text then return next .possible
    else return next .given
  | .needed =>
    if unaryWords.contains l.text then return next .needed
    else if reservedWords.contains l.text then throw (unexpected l.location)
    else if looseWords.contains l.text then return next .possible
    else return next .given

/-- Read a punctuator that is no bracket and ends no expression. -/
def punctuator (r : Reading) (l : Lexeme) : Except ParseFailure Reading :=
  let bad := throw (unexpected l.location)
  let next := fun operand => return { r with operand }
  if ["~", "...", "@"].contains l.text then next .needed
  else if l.text == "!" then next (if r.operand == .given then .given else .needed)
  else if l.text == "+" || l.text == "-" then next .needed
  else if l.text == "++" || l.text == "--" then next r.operand
  else if l.text == "*" && r.operand == .possible then next .possible
  else if !r.canEnd then bad
  else if l.text == "." || l.text == "?." then next .member
  else if l.text == ">" then next .possible
  else if l.text == "?" then return { operand := .needed, pending := r.pending + 1 }
  else if l.text == ":" then
    if 0 < r.pending then return { operand := .needed, pending := r.pending - 1 }
    else next .possible
  else next .needed

/-- Look through the list of types that an angle bracket opens; `rest` are the lexemes behind the
bracket. -/
def angle? (r : Reading) (rest : List Lexeme) : Option Reading :=
  if r.canEnd then
    (typeArguments? rest).map fun covered => { r with operand := .given, covered }
  else if r.operand == .needed then (typeParameters? rest).map fun covered => { r with covered }
  else none

end Reading

/-- The lexeme ends an expression in the state `r` where it stands outside brackets.  Where types
are not accepted, a colon that no question mark waits for ends it too. -/
def Reading.endsBefore (r : Reading) (commaEnds typed : Bool) (l : Lexeme) : Bool :=
  l.kind == .finish || l.isMark ";" || l.isCloser || (commaEnds && l.isMark ",")
    || (!typed && r.pending == 0 && l.isMark ":")

/-- A bracket that is open inside an expression. -/
structure OpenBracket where
  closer : String
  /-- How many question marks wait for their colon. -/
  pending : Nat := 0

/-- Pass over a lexeme, which `next` follows, between brackets.  Where types are not accepted, no
colon may stand for an annotation; between braces it may stand for other things. -/
def OpenBracket.pass (b : OpenBracket) (typed : Bool) (l : Lexeme) (next : Option Lexeme) :
    Except ParseFailure OpenBracket :=
  if typed || b.closer == "\x7d" then return b
  else if l.isMark "?" then
    match next with
    | some colon =>
      if colon.isMark ":" then throw (unexpected colon.location)
      else return { b with pending := b.pending + 1 }
    | none => return b
  else if l.isMark ":" then
    if 0 < b.pending then return { b with pending := b.pending - 1 }
    else throw (expected "," l.location)
  else return b

/-- Split lexemes behind an expression.  `brackets` are the ones that are open. -/
def throughExpression (commaEnds typed : Bool) (r : Reading) (brackets : List OpenBracket)
    (taken : List Lexeme) : List Lexeme → Except ParseFailure (List Lexeme × List Lexeme)
  | [] => return (taken.reverse, [])
  | l :: rest =>
    let go := fun r brackets => throughExpression commaEnds typed r brackets (l :: taken) rest
    match brackets with
    | bracket :: others =>
      if l.kind == .finish then throw (unexpected l.location)
      else
        match l.closer? with
        | some closer => go r ({ closer } :: brackets)
        | none =>
          if !l.isCloser then do go r ((← bracket.pass typed l rest.head?) :: others)
          else if l.text == bracket.closer then go r others
          else throw (unexpected l.location)
    | [] =>
      if 0 < r.covered && l.kind != .finish then go { r with covered := r.covered - 1 } []
      else if r.endsBefore commaEnds typed l then
        if r.canEnd then return (taken.reverse, l :: rest) else throw (unexpected l.location)
      else if let some r := if typed && l.isMark "<" then r.angle? rest else none then go r []
      else
        match l.closer?, l.kind with
        | some closer, _ => go { r with operand := .given } [{ closer }]
        | none, .word => do
          match ← r.word l with
          | some r => go r []
          | none => return (taken.reverse, l :: rest)
        | none, .punctuator => do go (← r.punctuator l) []
        | none, _ =>
          if r.operand == .given then return (taken.reverse, l :: rest)
          else go { r with operand := .given } []

/-! ## Types -/

/-- A state of reading a type. -/
structure TypeReading where
  /-- Something has to come. -/
  needed : Bool := true
  /-- How many question marks wait for their colon. -/
  pending : Nat := 0
  /-- How many angle brackets are open. -/
  angles : Nat := 0

/-- Words that stand before a type. -/
def typeUnaryWords : List String :=
  ["keyof", "typeof", "readonly", "unique", "infer", "new", "asserts", "abstract"]

/-- Words that stand between two types. -/
def typeBinaryWords : List String := ["is", "extends"]

/-- Read one lexeme of a type, brackets apart; `none` if the type ends before it. -/
def TypeReading.step (r : TypeReading) (l : Lexeme) : Option TypeReading :=
  if l.kind == .word then
    some { r with
      needed :=
        if r.needed then typeUnaryWords.contains l.text else typeBinaryWords.contains l.text }
  else if l.kind != .punctuator then if r.needed then some { r with needed := false } else none
  else if ["|", "&", ".", "=>"].contains l.text then some { r with needed := true }
  else if l.text == "-" && r.needed then some r
  else if l.text == "<" then some { r with needed := true, angles := r.angles + 1 }
  else if r.needed then none
  else if l.text == ">" && 0 < r.angles then some { r with angles := r.angles - 1 }
  else if (l.text == "," || l.text == "=") && 0 < r.angles then some { r with needed := true }
  else if l.text == "?" then some { r with needed := true, pending := r.pending + 1 }
  else if l.text == ":" && 0 < r.pending then
    some { r with needed := true, pending := r.pending - 1 }
  else none

/-- Split lexemes behind a type. -/
def throughType (r : TypeReading) (closers : List String) (taken : List Lexeme) :
    List Lexeme → Except ParseFailure (List Lexeme × List Lexeme)
  | [] => return (taken.reverse, [])
  | l :: rest =>
    let go := fun r closers => throughType r closers (l :: taken) rest
    let stop :=
      if r.needed then throw (unexpected l.location) else return (taken.reverse, l :: rest)
    match closers with
    | closer :: others =>
      if l.kind == .finish then throw (unexpected l.location)
      else
        match l.closer? with
        | some inner => go r (inner :: closers)
        | none =>
          if !l.isCloser then go r closers
          else if l.text == closer then go r others
          else throw (unexpected l.location)
    | [] =>
      match l.closer? with
      | some closer =>
        if l.isMark "\x7b" && !r.needed then stop else go { r with needed := false } [closer]
      | none =>
        match r.step l with
        | some r => go r []
        | none => stop

/-- Split lexemes behind a list in angle brackets that opens at the first one. -/
def throughAngles (depth : Nat) (taken : List Lexeme) :
    List Lexeme → Except ParseFailure (List Lexeme × List Lexeme)
  | [] => return (taken.reverse, [])
  | l :: rest =>
    if l.kind == .finish then throw (unexpected l.location)
    else if l.isMark "<" then throughAngles (depth + 1) (l :: taken) rest
    else if l.isMark ">" && depth ≤ 1 then return ((l :: taken).reverse, rest)
    else if l.isMark ">" then throughAngles (depth - 1) (l :: taken) rest
    else throughAngles depth (l :: taken) rest

/-! ## Readers -/

namespace Read

/-- Take an expression. -/
def expression (typed : Bool) (commaEnds : Bool) : Read (List Lexeme) := do
  let (taken, rest) ← throughExpression commaEnds typed {} [] [] (← ahead)
  skip taken rest
  return taken

/-- Take a type. -/
def type : Read (List Lexeme) := do
  let (taken, rest) ← throughType {} [] [] (← ahead)
  skip taken rest
  return taken

/-- Take an annotation, if there is one and types are accepted. -/
def annotation? (typed : Bool) : Read (Option (List Lexeme)) := do
  if typed then
    if ← tryMark ":" then return some (← type)
  return none

/-- Take the end of a statement: a semicolon, unless a closing brace, the end of the source or
another line follows. -/
def endStatement : Read Unit := do
  let last := (← get).last
  if ← tryMark ";" then return
  let l ← peek
  unless l.kind == .finish || l.isMark "\x7d" || last.start.line < l.start.line do
    throw (missingSemicolon last.behind)

end Read

/-- Leave out the brackets around a clause that is wrapped in them, as often as it is. -/
def unwrap : (fuel : Nat) → List Lexeme → List Lexeme
  | 0, clause => clause
  | fuel + 1, clause =>
    match clause with
    | l :: rest =>
      if l.isMark "(" then
        match throughBrackets [")"] [] rest with
        | .ok (taken, []) => unwrap fuel taken.dropLast
        | _ => clause
      else clause
    | [] => []

/-- What a clause covers, without the brackets around it; nothing for an empty clause. -/
def clauseExtent? (clause : List Lexeme) : Option Extent :=
  let inner := unwrap clause.length clause
  match inner.head?, inner.getLast? with
  | some first, some last => some (first.extentTo last)
  | _, _ => none

end Flowgraph.Source
