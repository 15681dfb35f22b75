import Flowgraph.Statement
import Flowgraph.Text.Blank
import Flowgraph.Text.Utf16

/-!
# Frames

Shows a place in a file: its line, the two lines before and behind it, and a mark under the
place.
-/

namespace Flowgraph.Console

/-- A number in a column of the given width. -/
def padLeft (width : Nat) (text : String) : String :=
  String.ofList (List.replicate (width - text.length) ' ') ++ text

/-- What stands before the mark: the text of the line up to the column, with everything but
tabs made blank. -/
def markMargin (line : List Char) (column : Nat) : String :=
  let blanks := line.flatMap fun c =>
    if c == '\t' then ['\t'] else List.replicate (Text.charUnits c) ' '
  String.ofList (blanks.take column)

/-- The frame around a place in a text, without a line end; nothing if none of its lines is
there. -/
def frame (text : String) (place : Location) : String :=
  let lines := Text.linesOf text.toList
  let line := place.line.toNat
  let first := line - 3
  let last := min lines.length (line + 2)
  let width := (toString last).length
  let shown := ((lines.take last).drop first).zipIdx.map fun (content, index) =>
    let number := first + index + 1
    let here := number == line
    let gutter := (if here then ">" else " ") ++ " " ++ padLeft width (toString number) ++ " |"
    let body := if content.isEmpty then "" else " " ++ String.ofList content
    let mark :=
      if here && place.column ≠ -1 then
        "\n  " ++ padLeft width "" ++ " | " ++ markMargin content place.column.toNat ++ "^"
      else ""
    gutter ++ body ++ mark
  "\n".intercalate shown

end Flowgraph.Console
