/-!
# Suggestions for misspelt options

An unknown option is compared with the known ones by the number of letters that have to be
changed, put in, left out or exchanged with their neighbour.
-/

namespace Flowgraph.Console

/-- No suggestion is farther away than this. -/
def maxDistance : Nat := 3

/-- One row of the table of distances: `before` and `above` are the last letter of the first
word and the letter at hand, `twoUp` and `up` the two rows above, and `left` the entry just
found.  The lists begin at the column of that entry. -/
def distanceRow (before : Option Char) (above : Char) (previous : Option Char) :
    (letters : List Char) → (twoUp up : List Nat) → (left : Nat) → List Nat
  | c :: letters, twoUp, diagonal :: up :: rest, left =>
    let changed := diagonal + (if above == c then 0 else 1)
    let best := min changed (min (left + 1) (up + 1))
    let exchanged :=
      if before == some c && previous == some above then
        match twoUp with
        | corner :: _ => min best (corner + 1)
        | [] => best
      else best
    exchanged :: distanceRow before above (some c) letters
      (if previous.isSome then twoUp.drop 1 else twoUp) (up :: rest) exchanged
  | _, _, _, _ => []

/-- The rows of the table of distances, down to the last one. -/
def distanceRows (word : List Char) (before : Option Char) :
    (letters : List Char) → (index : Nat) → (twoUp up : List Nat) → List Nat
  | [], _, _, up => up
  | c :: letters, index, twoUp, up =>
    let row := (index + 1) :: distanceRow before c none word twoUp up (index + 1)
    distanceRows word (some c) letters (index + 1) up row

/-- How many letters have to be changed, put in, left out or exchanged with their neighbour to
make one word from another. -/
def editDistance (a b : List Char) : Nat :=
  let first := List.range (b.length + 1)
  (distanceRows b none a 0 [] first).getLastD 0

/-- The candidates closest to a word, if they are close enough. -/
def closest (word : String) (candidates : List String) : List String :=
  let w := word.toList
  let near := candidates.filterMap fun candidate =>
    let c := candidate.toList
    let longest := max w.length c.length
    let distance := editDistance w c
    let close := distance ≤ maxDistance && 2 * longest < 5 * (longest - distance)
    if 1 < c.length && close then some (distance, candidate) else none
  let best := near.foldl (fun best candidate => min best candidate.1) maxDistance
  (near.filter fun candidate => candidate.1 == best).map (·.2)

/-- The line that suggests known options for an unknown one; nothing if none is close. -/
def suggestion (option : String) (known : List String) : String :=
  if option.startsWith "--" then
    let names := known.eraseDups.map fun name => String.ofList (name.toList.drop 2)
    let word := String.ofList (option.toList.drop 2)
    let found := ((closest word names).mergeSort (· ≤ ·)).map ("--" ++ ·)
    match found with
    | [] => ""
    | [one] => "\n(Did you mean " ++ one ++ "?)"
    | several => "\n(Did you mean one of " ++ ", ".intercalate several ++ "?)"
  else ""

end Flowgraph.Console
