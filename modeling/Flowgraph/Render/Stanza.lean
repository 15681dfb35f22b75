import Flowgraph.Fragment
import Flowgraph.Label
import Flowgraph.Text.Utf16

/-!
# Stanzas

The text form of a pruned program.  Each block is one stanza:

    @main_B0 {
        x = 1 ;
    }
    Predecessors: main_entry
    Successors: main_exit

Fragments are printed as they are.  The bare keywords `if`, `while` and `for` and the indent
fragment only decide where the targets of the block are noted, and where `{ }` stands for
the two arms of an `if` that were elided.
-/

namespace Flowgraph.Render

/-- Stands for the arms of an `if` that were elided. -/
def placeholder : String := "\x7b \x7d\n"

/-- The body of a stanza, and how far its last header reaches. -/
structure Body where
  pieces : List String := []
  /-- How many columns the fragments take from the header that the targets belong to. -/
  width : Nat := 0

/-- Lay out the fragments of a block.

Only the last header of a block has targets, so it is the one that is noted; for an `if` this
is so only when the block has a then-target (`hasThen`).  Any other `if` lost its arms: the
placeholder follows it, before the next statement opens.  `due` says that a placeholder is
still to come, `noted` that the noted header has begun. -/
def layout (hasThen : Bool) (due noted : Bool) : List String → Body
  | [] => { pieces := if due then [placeholder] else [] }
  | line :: rest =>
    let noted :=
      if Fragment.isKeyword line && !rest.any Fragment.isKeyword then line != "if" || hasThen
      else noted
    let due := due || (line == "if" && !noted)
    let settle := due && line == Fragment.indent
    let tail := layout hasThen (due && !settle) noted rest
    { pieces := (if settle then [placeholder] else []) ++ line :: tail.pieces
      width := (if noted then Text.units line else 0) + tail.width }

/-- `n` spaces. -/
def spaces (n : Nat) : String := String.ofList (List.replicate n ' ')

/-- The fragments of a block and the notes on its targets. -/
def bodyText (g : Graph) (b : Block) : Except Fault String := do
  let thenLabel ← g.targetLabel? b.thenTarget
  let exitLabel ← g.targetLabel? b.loopExit
  let body := layout thenLabel.isSome false false b.lines
  let text := String.join body.pieces
  match thenLabel, exitLabel with
  | some thenLabel, _ =>
    let elseLabel := (← g.targetLabel? b.elseTarget).getD "-"
    let margin := Text.units Fragment.indent + body.width + Text.units Fragment.indent
    return text ++ Fragment.indent ++ "# then: " ++ thenLabel ++ "\n"
      ++ spaces margin ++ "# else: " ++ elseLabel ++ "\n"
  | none, some exitLabel =>
    return text ++ Fragment.indent ++ "# loop_end: " ++ exitLabel ++ "\n"
  | none, none => return text

/-- A list with commas, or a dash for none. -/
def commaList (labels : List String) : String :=
  if labels.isEmpty then "-" else ", ".intercalate labels

/-- The two lines that list the neighbours of a block. -/
def neighbours (g : Graph) (b : Block) : Except Fault String := do
  let predecessors ← g.sortedLabels b.predecessors.toList
  let successors ← g.sortedLabels b.successors.toList
  return "Predecessors: " ++ commaList predecessors ++ "\nSuccessors: "
    ++ commaList successors ++ "\n\n"

/-- The stanza of a block; nothing for a block that was removed. -/
def stanza (g : Graph) (h : Nat) (b : Block) : Except Fault String :=
  match g.labelOf? h b with
  | none => return ""
  | some label =>
    return "@" ++ label ++ " \x7b\n" ++ (← bodyText g b) ++ "\x7d\n" ++ (← neighbours g b)

/-- The stanza of the entry shows the signature of the function. -/
def entryStanza (g : Graph) : Except Fault String := do
  let b ← g.find Graph.entry
  let parameters := if g.parameters.isEmpty then "-" else String.join g.parameters
  return "@" ++ g.name ++ "_entry \x7b\n"
    ++ "   name: " ++ g.name ++ "\n"
    ++ "   ret_type: " ++ String.join g.returnType ++ "\n"
    ++ "   args: " ++ parameters ++ "\n\x7d\n" ++ (← neighbours g b)

/-- The text form of a graph: the entry, the numbered blocks in display order, the exit. -/
def graphText (g : Graph) : Except Fault String := do
  if g.phase ≠ .pruned then throw (.notPruned g.name)
  let first ← entryStanza g
  let middle ← (← g.alive).mapM fun (h, b) => stanza g h b
  let last ← stanza g Graph.exit (← g.find Graph.exit)
  return first ++ String.join middle ++ last

/-- The stanza of the statements at file scope; nothing if there are none. -/
def globalsText (lines : List String) : String :=
  if lines.isEmpty then ""
  else "@Globals \x7b\n" ++ String.join lines
    ++ "\x7d\nPredecessors: -\nSuccessors: -\n\n"

/-- The text form of a program. -/
def programText (p : Program) : Except Fault String := do
  let functions ← p.functions.mapM graphText
  return "/*--- program: " ++ p.sourceFile ++ " ---*/\n" ++ globalsText p.globals
    ++ String.join functions

end Flowgraph.Render
