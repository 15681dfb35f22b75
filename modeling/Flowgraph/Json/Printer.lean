import Flowgraph.Json

/-!
# Writing JSON

Numbers are written with the fewest digits that read back in binary64: positionally as long as
the point stands at most 21 places behind the first digit or at most 6 before it, and with an
exponent otherwise.
-/

namespace Flowgraph.Json

/-- Write a decimal number without sign. -/
def digitsText (d : Decimal) : String :=
  let digits := Nat.toDigits 10 d.digits
  let count := digits.length
  -- The value is `0.digits · 10 ^ point`.
  let point : Int := count + d.exponent
  let zeros := fun (n : Int) => List.replicate n.toNat '0'
  String.ofList <|
    if count ≤ point && point ≤ 21 then digits ++ zeros (point - count)
    else if 0 < point && point ≤ 21 then
      digits.take point.toNat ++ '.' :: digits.drop point.toNat
    else if -6 < point && point ≤ 0 then '0' :: '.' :: zeros (-point) ++ digits
    else
      let e := point - 1
      let fraction := if count ≤ 1 then [] else '.' :: digits.drop 1
      digits.take 1 ++ fraction ++ 'e' :: (if e < 0 then '-' else '+')
        :: Nat.toDigits 10 e.natAbs

/-- Write a number; `none` if it is beyond binary64. -/
def numberText? (d : Decimal) : Option String :=
  match d.magnitude with
  | .zero => some "0"
  | .infinite => none
  | .finite x =>
    let text := digitsText (Decimal.shortest x)
    some (if d.negative then "-" ++ text else text)

/-- A hexadecimal digit. -/
def hexDigit (n : Nat) : Char :=
  if n < 10 then Char.ofNat ('0'.toNat + n) else Char.ofNat ('a'.toNat + (n - 10))

/-- Write one character of a string. -/
def escapeChar (c : Char) : List Char :=
  match c with
  | '"' => ['\\', '"']
  | '\\' => ['\\', '\\']
  | '\x08' => ['\\', 'b']
  | '\t' => ['\\', 't']
  | '\n' => ['\\', 'n']
  | '\x0c' => ['\\', 'f']
  | '\r' => ['\\', 'r']
  | c =>
    if c.toNat < 0x20 then ['\\', 'u', '0', '0', hexDigit (c.toNat / 16), hexDigit (c.toNat % 16)]
    else [c]

/-- Write a string between quotes. -/
def quote (s : String) : String :=
  "\"" ++ String.ofList (s.toList.flatMap escapeChar) ++ "\""

mutual

/-- Write a value on one line. -/
def compact : Json → String
  | .null => "null"
  | .bool b => if b then "true" else "false"
  | .number d => (numberText? d).getD "null"
  | .string s => quote s
  | .array items => "[" ++ ",".intercalate (compactItems items) ++ "]"
  | .object fields => "\x7b" ++ ",".intercalate (compactFields fields) ++ "\x7d"

/-- Write the items of an array. -/
def compactItems : List Json → List String
  | [] => []
  | item :: items => compact item :: compactItems items

/-- Write the fields of an object. -/
def compactFields : List (String × Json) → List String
  | [] => []
  | (key, value) :: fields => (quote key ++ ":" ++ compact value) :: compactFields fields

end

/-- Put items on lines of their own between brackets; `margin` is the line feed and the indent
of the line on which the brackets stand. -/
def onLines (opening closing margin : String) (items : List String) : String :=
  if items.isEmpty then opening ++ closing
  else opening ++ ",".intercalate (items.map (margin ++ "  " ++ ·)) ++ margin ++ closing

mutual

/-- Write a value with every item on a line of its own, indented by two columns. -/
def prettyAt (margin : String) : Json → String
  | .null => "null"
  | .bool b => if b then "true" else "false"
  | .number d => (numberText? d).getD "null"
  | .string s => quote s
  | .array items => onLines "[" "]" margin (prettyItems (margin ++ "  ") items)
  | .object fields => onLines "\x7b" "\x7d" margin (prettyFields (margin ++ "  ") fields)

/-- Write the items of an array. -/
def prettyItems (margin : String) : List Json → List String
  | [] => []
  | item :: items => prettyAt margin item :: prettyItems margin items

/-- Write the fields of an object. -/
def prettyFields (margin : String) : List (String × Json) → List String
  | [] => []
  | (key, value) :: fields =>
    (quote key ++ ": " ++ prettyAt margin value) :: prettyFields margin fields

end

/-- Write a value on several lines. -/
def pretty (j : Json) : String := prettyAt "\n" j

mutual

/-- The plain text of a value: items are joined by commas and null items are empty, and an
object does not show its fields. -/
def plainText : Json → String
  | .null => "null"
  | .bool b => if b then "true" else "false"
  | .number d =>
    (numberText? d).getD (if d.negative then "-Infinity" else "Infinity")
  | .string s => s
  | .array items => ",".intercalate (plainItems items)
  | .object _ => "[object Object]"

/-- The plain texts of the items of an array. -/
def plainItems : List Json → List String
  | [] => []
  | .null :: items => "" :: plainItems items
  | item :: items => plainText item :: plainItems items

end

end Flowgraph.Json
