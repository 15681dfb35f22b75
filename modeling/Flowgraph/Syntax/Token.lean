import Flowgraph.Syntax.Tree
import Flowgraph.Text.Utf16

/-!
# Tokens

The tokens of a source file, and those that lie between two offsets.  The search for the
first of these goes by halves, so it counts on tokens that stand in source order and do not
overlap.
-/

namespace Flowgraph

/-- A token and the offsets between which it stands. -/
structure Token where
  start : Int
  stop : Int
  text : String
  deriving DecidableEq, Repr, Inhabited

namespace Token

/-- The tokens of a source; a span that covers nothing is none. -/
def ofSpans (source : String) (spans : List (Int × Int)) : Array Token :=
  let nonempty := spans.filter fun span => span.1 < span.2
  let suffixes := Text.suffixes source
  (nonempty.map fun (start, stop) =>
    { start, stop, text := Text.slice suffixes start stop }).toArray

/-- The index, between `low` and `high`, of the first token that starts at `offset` or later. -/
def firstBetween (tokens : Array Token) (offset : Int) (low high : Nat)
    (bound : high ≤ tokens.size) : Nat :=
  if nonempty : low < high then
    let middle := (low + high) / 2
    have : middle < tokens.size := by omega
    if tokens[middle].start < offset then firstBetween tokens offset (middle + 1) high bound
    else firstBetween tokens offset low middle (by omega)
  else low
termination_by high - low

/-- The index of the first token that starts at `offset` or later. -/
def firstAt (tokens : Array Token) (offset : Int) : Nat :=
  firstBetween tokens offset 0 tokens.size (Nat.le_refl _)

/-- The texts of the tokens from the first that starts at `start` or later up to the last before
one that ends behind `stop`. -/
def between (tokens : Array Token) (start stop : Int) : List String :=
  ((tokens.toList.drop (firstAt tokens start)).takeWhile (·.stop ≤ stop)).map (·.text)

/-- The texts of the tokens of a piece; none if it is not known what the piece covers. -/
def within (tokens : Array Token) (extent : Extent) : List String :=
  match extent.start, extent.stop with
  | some start, some stop => between tokens start stop
  | _, _ => []

end Token

end Flowgraph
