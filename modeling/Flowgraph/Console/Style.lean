/-!
# Coloured text

Colours are switched on before a text and off behind it, and likewise around every line end
inside the text, so that no colour runs over the end of a line.
-/

namespace Flowgraph.Console

/-- The colours of messages. -/
inductive Colour where
  | red
  | green
  | yellow
  | blue
  | grey
  deriving DecidableEq, Repr, Inhabited

/-- The number that switches a colour on. -/
def Colour.code : Colour → String
  | .red => "31"
  | .green => "32"
  | .yellow => "33"
  | .blue => "34"
  | .grey => "90"

/-- Put `closing` before and `opening` behind every line end. -/
def aroundLineEnds (opening closing : List Char) : List Char → List Char
  | [] => []
  | '\r' :: '\n' :: cs => closing ++ '\r' :: '\n' :: opening ++ aroundLineEnds opening closing cs
  | '\n' :: cs => closing ++ '\n' :: opening ++ aroundLineEnds opening closing cs
  | c :: cs => c :: aroundLineEnds opening closing cs

/-- Colour a text; an empty text stays as it is. -/
def Colour.paint (colour : Colour) (text : String) : String :=
  if text.isEmpty then text
  else
    let opening := ("\x1b[" ++ colour.code ++ "m").toList
    let closing := "\x1b[39m".toList
    String.ofList (opening ++ aroundLineEnds opening closing text.toList ++ closing)

end Flowgraph.Console
