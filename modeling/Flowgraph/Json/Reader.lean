import Flowgraph.Json

/-!
# Reading JSON

A strict reader: no comments, no commas at the end of a list, no control characters inside
strings, no zeros in front of a number, and nothing but white space around the value.  It
works on lists of characters; a reader of a part answers what it read and what is left.
-/

namespace Flowgraph.Json

/-- Skip the four characters that may stand between tokens. -/
def skipSpace : List Char → List Char
  | [] => []
  | c :: cs => if c == ' ' || c == '\t' || c == '\n' || c == '\r' then skipSpace cs else c :: cs

/-- The value of a hexadecimal digit. -/
def hexValue? (c : Char) : Option Nat :=
  if c.isDigit then some (c.toNat - '0'.toNat)
  else if 'a' ≤ c && c ≤ 'f' then some (c.toNat - 'a'.toNat + 10)
  else if 'A' ≤ c && c ≤ 'F' then some (c.toNat - 'A'.toNat + 10)
  else none

/-- The value of four hexadecimal digits. -/
def hexUnit? (a b c d : Char) : Option Nat := do
  return 4096 * (← hexValue? a) + 256 * (← hexValue? b) + 16 * (← hexValue? c) + (← hexValue? d)

/-- The character for a code unit that stands alone. -/
def unitChar (n : Nat) : Char := if 0xD800 ≤ n && n ≤ 0xDFFF then '\ufffd' else Char.ofNat n

/-- What a backslash with a letter stands for. -/
def escape? (c : Char) : Option Char :=
  match c with
  | '"' => some '"'
  | '\\' => some '\\'
  | '/' => some '/'
  | 'b' => some '\x08'
  | 'f' => some '\x0c'
  | 'n' => some '\n'
  | 'r' => some '\r'
  | 't' => some '\t'
  | _ => none

/-- Read a string up to its closing quote.  A code unit above the basic plane (`high`) waits for
the unit that completes it. -/
def readStringRest (high : Option Nat) : List Char → Option (List Char × List Char)
  | '"' :: rest => some (high.toList.map unitChar, rest)
  | '\\' :: 'u' :: a :: b :: c :: d :: rest => do
    let unit ← hexUnit? a b c d
    match high with
    | some h =>
      if 0xDC00 ≤ unit && unit ≤ 0xDFFF then
        let (cs, rest) ← readStringRest none rest
        return (Char.ofNat (0x10000 + 1024 * (h - 0xD800) + (unit - 0xDC00)) :: cs, rest)
      else if 0xD800 ≤ unit && unit ≤ 0xDBFF then
        let (cs, rest) ← readStringRest (some unit) rest
        return (unitChar h :: cs, rest)
      else
        let (cs, rest) ← readStringRest none rest
        return (unitChar h :: unitChar unit :: cs, rest)
    | none =>
      if 0xD800 ≤ unit && unit ≤ 0xDBFF then readStringRest (some unit) rest
      else
        let (cs, rest) ← readStringRest none rest
        return (unitChar unit :: cs, rest)
  | '\\' :: c :: rest => do
    let c ← escape? c
    let (cs, rest) ← readStringRest none rest
    return (high.toList.map unitChar ++ c :: cs, rest)
  | c :: rest =>
    if c.toNat < 0x20 || c == '\\' then none
    else do
      let (cs, rest) ← readStringRest none rest
      return (high.toList.map unitChar ++ c :: cs, rest)
  | [] => none

/-- The number that a list of digits spells. -/
def digitsValue (digits : List Char) : Nat :=
  digits.foldl (fun n d => 10 * n + (d.toNat - '0'.toNat)) 0

/-- Read one digit or more. -/
def readDigits (cs : List Char) : Option (List Char × List Char) :=
  let digits := cs.takeWhile Char.isDigit
  if digits.isEmpty then none else some (digits, cs.dropWhile Char.isDigit)

/-- Read a number without its sign. -/
def readUnsigned (cs : List Char) : Option (Decimal × List Char) := do
  let (whole, rest) ← readDigits cs
  if whole.length ≠ 1 && whole.head? = some '0' then none
  let (fraction, rest) ←
    match rest with
    | '.' :: rest => readDigits rest
    | rest => some ([], rest)
  let (exponent, rest) ←
    match rest with
    | c :: rest' =>
      if c == 'e' || c == 'E' then
        match rest' with
        | '+' :: rest => (readDigits rest).map fun (ds, r) => ((digitsValue ds : Int), r)
        | '-' :: rest => (readDigits rest).map fun (ds, r) => (-(digitsValue ds : Int), r)
        | rest => (readDigits rest).map fun (ds, r) => ((digitsValue ds : Int), r)
      else some (0, rest)
    | [] => some (0, [])
  return ({ digits := digitsValue (whole ++ fraction), exponent := exponent - fraction.length },
    rest)

/-- Read a number. -/
def readNumber : List Char → Option (Json × List Char)
  | '-' :: cs => (readUnsigned cs).map fun (d, rest) => (.number { d with negative := true }, rest)
  | cs => (readUnsigned cs).map fun (d, rest) => (.number d, rest)

/-- Read a string behind its opening quote. -/
def readString (cs : List Char) : Option (String × List Char) :=
  (readStringRest none cs).map fun (cs, rest) => (String.ofList cs, rest)

mutual

/-- Read a value. -/
def readValue : (fuel : Nat) → List Char → Option (Json × List Char)
  | 0, _ => none
  | fuel + 1, cs =>
    match skipSpace cs with
    | 'n' :: 'u' :: 'l' :: 'l' :: rest => some (.null, rest)
    | 't' :: 'r' :: 'u' :: 'e' :: rest => some (.bool true, rest)
    | 'f' :: 'a' :: 'l' :: 's' :: 'e' :: rest => some (.bool false, rest)
    | '"' :: rest => (readString rest).map fun (s, rest) => (.string s, rest)
    | '[' :: rest =>
      match skipSpace rest with
      | ']' :: rest => some (.array [], rest)
      | rest => (readItems fuel rest).map fun (items, rest) => (.array items, rest)
    | '\x7b' :: rest =>
      match skipSpace rest with
      | '\x7d' :: rest => some (.object [], rest)
      | rest => (readFields fuel rest).map fun (fields, rest) => (.object (listFields fields), rest)
    | rest => readNumber rest

/-- Read the items of an array, and its closing bracket. -/
def readItems : (fuel : Nat) → List Char → Option (List Json × List Char)
  | 0, _ => none
  | fuel + 1, cs => do
    let (item, rest) ← readValue fuel cs
    match skipSpace rest with
    | ',' :: rest =>
      let (items, rest) ← readItems fuel rest
      return (item :: items, rest)
    | ']' :: rest => return ([item], rest)
    | _ => none

/-- Read the fields of an object, and its closing bracket. -/
def readFields : (fuel : Nat) → List Char → Option (List (String × Json) × List Char)
  | 0, _ => none
  | fuel + 1, cs =>
    match skipSpace cs with
    | '"' :: rest => do
      let (key, rest) ← readString rest
      match skipSpace rest with
      | ':' :: rest =>
        let (item, rest) ← readValue fuel rest
        match skipSpace rest with
        | ',' :: rest =>
          let (fields, rest) ← readFields fuel rest
          return ((key, item) :: fields, rest)
        | '\x7d' :: rest => return ([(key, item)], rest)
        | _ => none
      | _ => none
    | _ => none

end

/-- Read a JSON text; `none` if it is not one.  Every second step takes a character, so twice the
length of the text is fuel enough. -/
def parse? (text : String) : Option Json := do
  let cs := text.toList
  let (j, rest) ← readValue (2 * cs.length + 2) cs
  if (skipSpace rest).isEmpty then return j else none

end Flowgraph.Json
