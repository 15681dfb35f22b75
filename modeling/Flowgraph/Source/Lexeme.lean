import Flowgraph.Syntax.Parser
import Flowgraph.Text.Blank
import Flowgraph.Text.Utf16

/-!
# Lexemes

Cuts source text into words, numbers, strings and punctuators.  White space, line ends and
comments separate lexemes and are dropped.  The list of lexemes ends with a mark for the end
of the source, which has no text.
-/

namespace Flowgraph.Source

/-- What a lexeme is. -/
inductive LexemeKind where
  /-- A keyword or a name. -/
  | word
  | number
  | string
  | punctuator
  /-- The end of the source. -/
  | finish
  deriving DecidableEq, Repr, Inhabited

/-- A place in the source, with its offset in UTF-16 code units. -/
structure Position where
  offset : Nat := 0
  line : Nat := 1
  column : Nat := 0
  deriving DecidableEq, Repr, Inhabited

/-- A lexeme and where it stands. -/
structure Lexeme where
  kind : LexemeKind
  text : String
  start : Position
  /-- The offset behind the lexeme. -/
  stop : Nat
  deriving DecidableEq, Repr, Inhabited

def Position.location (p : Position) : Location := ⟨p.line, p.column⟩

def Lexeme.location (l : Lexeme) : Location := l.start.location

namespace Position

/-- The position behind some text.  A carriage return before a line feed ends no line. -/
def after (p : Position) : List Char → Position
  | [] => p
  | '\r' :: '\n' :: cs =>
    after { offset := p.offset + 2, line := p.line + 1, column := 0 } cs
  | c :: cs =>
    if Text.isLineEnd c then
      after { offset := p.offset + 1, line := p.line + 1, column := 0 } cs
    else
      let units := Text.charUnits c
      after { p with offset := p.offset + units, column := p.column + units } cs

end Position

/-- A character that can begin a name.  Beyond ASCII every character that is not blank counts
as a letter: no other one stands outside strings and comments in well-formed source. -/
def isNameStart (c : Char) : Bool :=
  c.isAlpha || c == '$' || c == '_' || (c.toNat ≥ 0x80 && !Text.isBlank c)

/-- A character that can go on a name. -/
def isNameChar (c : Char) : Bool := isNameStart c || c.isDigit

/-- The punctuators, the longer ones before their beginnings. -/
def punctuators : List String :=
  [">>>=", "...", "===", "!==", "**=", "<<=", ">>=", ">>>", "&&=", "||=", "??=",
    "=>", "==", "!=", "<=", ">=", "&&", "||", "??", "?.", "++", "--", "+=", "-=", "*=", "/=",
    "%=", "&=", "|=", "^=", "<<", ">>", "**",
    "\x7b", "\x7d", "(", ")", "[", "]", ";", ",", "<", ">", "+", "-", "*", "/", "%", "&", "|",
    "^", "!", "~", "?", ":", "=", ".", "@"]

/-- How many characters the longest punctuator at the start of a text has.  A question mark
and a point before a digit are two punctuators. -/
def punctuatorLength? (cs : List Char) : Option Nat :=
  let found := punctuators.find? fun p => p.toList.isPrefixOf cs
  match found, cs with
  | some "?.", _ :: _ :: c :: _ => if c.isDigit then some 1 else some 2
  | some p, _ => some p.length
  | none, _ => none

/-- How many characters the string between quotes at the start of a text has, the opening quote
apart; `none` if it is not closed on its line. -/
def stringLength? (quote : Char) : List Char → Option Nat
  | [] => none
  | '\\' :: '\r' :: '\n' :: cs => (stringLength? quote cs).map (· + 3)
  | '\\' :: _ :: cs => (stringLength? quote cs).map (· + 2)
  | c :: cs =>
    if c == quote then some 1
    else if c == '\n' || c == '\r' then none
    else (stringLength? quote cs).map (· + 1)

/-- How many characters the comment at the start of a text has, its first two apart; `none` if
it is not closed. -/
def commentLength? : List Char → Option Nat
  | [] => none
  | '*' :: '/' :: _ => some 2
  | _ :: cs => (commentLength? cs).map (· + 1)

/-- How many of the characters at the start of a text are digits or `_`. -/
def digitsLength (cs : List Char) : Nat := (cs.takeWhile fun c => c.isDigit || c == '_').length

/-- How many characters the exponent at the start of a text has. -/
def exponentLength : List Char → Nat
  | e :: cs =>
    if e == 'e' || e == 'E' then
      match cs with
      | c :: rest =>
        if c == '+' || c == '-' then 2 + digitsLength rest else 1 + digitsLength cs
      | [] => 0
    else 0
  | [] => 0

/-- How many characters the number at the start of a text has. -/
def numberLength (cs : List Char) : Nat :=
  match cs with
  | '0' :: c :: rest =>
    if ['x', 'X', 'b', 'B', 'o', 'O'].contains c then 2 + (rest.takeWhile isNameChar).length
    else decimalLength cs
  | _ => decimalLength cs
where
  /-- The length of a number that is written in decimal. -/
  decimalLength (cs : List Char) : Nat :=
    let whole := digitsLength cs
    let rest := cs.drop whole
    let fraction := if rest.head? == some '.' then 1 + digitsLength (rest.drop 1) else 0
    let rest := rest.drop fraction
    let exponent := exponentLength rest
    let suffix := if (rest.drop exponent).head? == some 'n' then 1 else 0
    whole + fraction + exponent + suffix

/-- What the text at the start of a source is, and how many characters it has; no kind for what
is dropped.  `none` for text that is no part of a source. -/
def piece? : List Char → Option (Option LexemeKind × Nat)
  | [] => none
  | '/' :: '/' :: cs => some (none, 2 + (cs.takeWhile fun c => !Text.isLineEnd c).length)
  | '/' :: '*' :: cs => (commentLength? cs).map fun n => (none, n + 2)
  | c :: cs =>
    if Text.isBlank c then some (none, 1 + (cs.takeWhile Text.isBlank).length)
    else if isNameStart c then some (some .word, 1 + (cs.takeWhile isNameChar).length)
    else if c.isDigit || (c == '.' && (cs.head?.any Char.isDigit)) then
      some (some .number, numberLength (c :: cs))
    else if c == '"' || c == '\'' then (stringLength? c cs).map fun n => (some .string, n + 1)
    else (punctuatorLength? (c :: cs)).map fun n => (some .punctuator, n)

/-- A failure to read the source, at a place. -/
def malformedAt (location : Location) (message : String) : ParseFailure :=
  .malformed (message ++ s!" ({location.line}:{location.column})") (some location)

/-- What stands at a place cannot stand there. -/
def unexpected (location : Location) : ParseFailure := malformedAt location "Unexpected token"

/-- Something else than `text` stands at a place. -/
def expected (text : String) (location : Location) : ParseFailure :=
  malformedAt location ("Unexpected token, expected \"" ++ text ++ "\"")

/-- A statement goes on behind a place where it has to end. -/
def missingSemicolon (location : Location) : ParseFailure :=
  malformedAt location "Missing semicolon."

/-- Cut a source text, which begins at position `p`, into lexemes.  Every piece has a character
at least, so the length of the text is fuel enough. -/
def lexemesFrom (p : Position) : (fuel : Nat) → List Char → Except ParseFailure (List Lexeme)
  | fuel + 1, c :: cs =>
    match piece? (c :: cs) with
    | none => throw (unexpected p.location)
    | some (kind, n) => do
      let text := (c :: cs).take n
      let next := p.after text
      let rest ← lexemesFrom next fuel ((c :: cs).drop n)
      match kind with
      | none => return rest
      | some kind =>
        return { kind, text := String.ofList text, start := p, stop := next.offset } :: rest
  | _, _ => return [{ kind := .finish, text := "", start := p, stop := p.offset }]

/-- The lexemes of a source text. -/
def lexemes (source : String) : Except ParseFailure (List Lexeme) :=
  let cs := source.toList
  lexemesFrom {} cs.length cs

end Flowgraph.Source
