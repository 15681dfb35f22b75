import Flowgraph.Source.Lexeme

/-!
# Reading lexemes

A reader takes lexemes from the front of a list and remembers where the last one ended.
Where it cannot go on it fails at the lexeme that it found.
-/

namespace Flowgraph.Source

/-- The lexemes that are still to be read. -/
structure Cursor where
  rest : List Lexeme
  /-- The last lexeme that was taken. -/
  last : Lexeme

/-- A reader of lexemes. -/
abbrev Read := StateT Cursor (Except ParseFailure)

namespace Lexeme

/-- The lexeme is the punctuator `text`. -/
def isMark (l : Lexeme) (text : String) : Bool := l.kind == .punctuator && l.text == text

/-- The lexeme is the word `text`. -/
def isWord (l : Lexeme) (text : String) : Bool := l.kind == .word && l.text == text

/-- The bracket that closes the one that the lexeme opens. -/
def closer? (l : Lexeme) : Option String :=
  if l.isMark "(" then some ")"
  else if l.isMark "[" then some "]"
  else if l.isMark "\x7b" then some "\x7d"
  else none

/-- The lexeme is a closing bracket. -/
def isCloser (l : Lexeme) : Bool := l.isMark ")" || l.isMark "]" || l.isMark "\x7d"

/-- The place behind the lexeme. -/
def behind (l : Lexeme) : Location := (l.start.after l.text.toList).location

/-- What two lexemes and all between them cover. -/
def extentTo (first last : Lexeme) : Extent :=
  { start := some first.start.offset, stop := some last.stop, location := some first.location }

end Lexeme

namespace Read

/-- The lexemes that are still to be read. -/
def ahead : Read (List Lexeme) := return (← get).rest

/-- The next lexeme, which is not taken. -/
def peek : Read Lexeme := do
  let cursor ← get
  return cursor.rest.head?.getD cursor.last

/-- The lexeme behind the next one. -/
def peekSecond : Read Lexeme := do
  let cursor ← get
  return cursor.rest[1]?.getD cursor.last

/-- Fail at a lexeme. -/
def failAt {α : Type} (l : Lexeme) : Read α := throw (unexpected l.location)

/-- Take the next lexeme.  The end of the source cannot be taken. -/
def take : Read Lexeme := do
  let cursor ← get
  match cursor.rest with
  | [] => failAt cursor.last
  | l :: rest =>
    if l.kind == .finish then failAt l
    set { rest, last := l : Cursor }
    return l

/-- Take the next lexeme if it is the punctuator `text`. -/
def tryMark (text : String) : Read Bool := do
  if (← peek).isMark text then
    let _ ← take
    return true
  return false

/-- Take the next lexeme if it is the word `text`. -/
def tryWord (text : String) : Read Bool := do
  if (← peek).isWord text then
    let _ ← take
    return true
  return false

/-- Take the punctuator `text`. -/
def mark (text : String) : Read Unit := do
  let l ← peek
  unless ← tryMark text do throw (expected text l.location)

/-- Take the word `text`. -/
def word (text : String) : Read Unit := do
  let l ← peek
  unless ← tryWord text do throw (expected text l.location)

/-- Take several lexemes at once; `rest` are those behind them. -/
def skip (taken rest : List Lexeme) : Read Unit := do
  set { rest, last := taken.getLastD (← get).last : Cursor }

/-- What a piece covers that begins at `l` and ends with the last lexeme taken. -/
def extentFrom (l : Lexeme) : Read Extent := return l.extentTo (← get).last

end Read

/-- Split lexemes behind the brackets that are open; `closers` are the ones to come. -/
def throughBrackets (closers : List String) (taken : List Lexeme) :
    List Lexeme → Except ParseFailure (List Lexeme × List Lexeme)
  | [] => throw (unexpected .unknown)
  | l :: rest =>
    if l.kind == .finish then throw (unexpected l.location)
    else
      match l.closer? with
      | some closer => throughBrackets (closer :: closers) (l :: taken) rest
      | none =>
        if l.isCloser then
          match closers with
          | [] => throw (unexpected l.location)
          | closer :: others =>
            if closer != l.text then throw (unexpected l.location)
            else if others.isEmpty then return ((l :: taken).reverse, rest)
            else throughBrackets others (l :: taken) rest
        else throughBrackets closers (l :: taken) rest

namespace Read

/-- Take a group in brackets that opens at the next lexeme.  Answers what is between the
brackets. -/
def group : Read (List Lexeme) := do
  let l ← take
  match l.closer? with
  | none => failAt l
  | some closer =>
    let (taken, rest) ← throughBrackets [closer] [] (← ahead)
    skip taken rest
    return taken.dropLast

end Read

end Flowgraph.Source
