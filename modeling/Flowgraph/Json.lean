import Flowgraph.Decimal

/-!
# JSON values
-/

namespace Flowgraph

/-- A JSON value.  The fields of an object stand in the order in which they are listed. -/
inductive Json where
  | null
  | bool (value : Bool)
  | number (value : Decimal)
  | string (value : String)
  | array (items : List Json)
  | object (fields : List (String × Json))
  deriving Inhabited

namespace Json

/-- The value of a field, for an object that has it. -/
def field? (j : Json) (key : String) : Option Json :=
  match j with
  | .object fields => fields.lookup key
  | _ => none

/-- The number as an integer, if it is written as one. -/
def int? : Json → Option Int
  | .number ⟨negative, digits, exponent⟩ =>
    if exponent = 0 then some (if negative then -digits else digits) else none
  | _ => none

def string? : Json → Option String
  | .string s => some s
  | _ => none

def bool? : Json → Option Bool
  | .bool b => some b
  | _ => none

def array? : Json → Option (List Json)
  | .array items => some items
  | _ => none

/-- An integer as a JSON number. -/
def ofInt (i : Int) : Json := .number { negative := i < 0, digits := i.natAbs }

/-- A list of strings as a JSON array. -/
def ofStrings (texts : List String) : Json := .array (texts.map .string)

/-- A string, or null. -/
def ofString? (text : Option String) : Json := text.elim .null .string

/-- The greatest number that can be the index of an array element. -/
def maxIndex : Nat := 4294967294

/-- The index that a key spells, for a key that spells one without a needless zero. -/
def index? (key : String) : Option Nat :=
  match key.toList with
  | [] => none
  | c :: cs =>
    if (c :: cs).all Char.isDigit && (c != '0' || cs.isEmpty) then
      let n := (c :: cs).foldl (fun n d => 10 * n + (d.toNat - '0'.toNat)) 0
      if n ≤ maxIndex then some n else none
    else none

/-- Set a field.  A field that was there keeps its place. -/
def setField (fields : List (String × Json)) (key : String) (value : Json) :
    List (String × Json) :=
  if fields.any (·.1 == key) then
    fields.map fun entry => if entry.1 == key then (key, value) else entry
  else fields ++ [(key, value)]

/-- The fields of an object in the order in which they are listed: the keys that are array
indices, in numeric order, and then the others as they first appeared.  A repeated key has
the value that came last. -/
def listFields (written : List (String × Json)) : List (String × Json) :=
  let fields := written.foldl (fun fields entry => setField fields entry.1 entry.2) []
  let indexed := fields.filterMap fun entry => (index? entry.1).map (·, entry)
  let named := fields.filter fun entry => (index? entry.1).isNone
  (indexed.mergeSort fun a b => a.1 ≤ b.1).map (·.2) ++ named

end Json

end Flowgraph
