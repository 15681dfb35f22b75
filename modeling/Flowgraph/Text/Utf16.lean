/-!
# Lengths and cuts in UTF-16 code units

Offsets into a source text, columns and widths count UTF-16 code units: a character outside
the basic plane counts two, any other one.
-/

namespace Flowgraph.Text

/-- How many code units a character takes. -/
def charUnits (c : Char) : Nat := if c.val ≤ 0xFFFF then 1 else 2

/-- How many code units a list of characters takes. -/
def unitsOf (cs : List Char) : Nat := cs.foldr (fun c n => charUnits c + n) 0

/-- How many code units a text takes. -/
def units (s : String) : Nat := unitsOf s.toList

/-- Keep the characters that end at offset `n` or before. -/
def takeUnits : (n : Nat) → List Char → List Char
  | _, [] => []
  | n, c :: cs => if charUnits c ≤ n then c :: takeUnits (n - charUnits c) cs else []

/-- Leave out the characters that begin before offset `n`. -/
def dropUnits : (n : Nat) → List Char → List Char
  | 0, cs => cs
  | _, [] => []
  | n, c :: cs => dropUnits (n - charUnits c) cs

/-- Put what begins at each offset of a text behind `found`. -/
def suffixesFrom (found : Array (List Char)) : List Char → Array (List Char)
  | [] => found.push []
  | c :: cs =>
    let here := found.push (c :: cs)
    suffixesFrom (if charUnits c = 1 then here else here.push cs) cs

/-- What begins at each offset of a text, the last one being its end. -/
def suffixes (s : String) : Array (List Char) := suffixesFrom #[] s.toList

/-- The part from offset `start` to offset `stop` of a text that is given by its suffixes.  A
negative offset counts from the end of the text, and offsets outside the text are moved to its
nearer end. -/
def slice (suffixes : Array (List Char)) (start stop : Int) : String :=
  let length := suffixes.size - 1
  let offset := fun (i : Int) =>
    if i < 0 then (length + i).toNat else min i.toNat length
  String.ofList (takeUnits (offset stop - offset start) (suffixes.getD (offset start) []))

@[simp] theorem units_empty : units "" = 0 := rfl

theorem charUnits_eq (c : Char) : charUnits c = 1 ∨ charUnits c = 2 := by
  unfold charUnits
  split <;> simp

@[simp] theorem unitsOf_cons (c : Char) (cs : List Char) :
    unitsOf (c :: cs) = charUnits c + unitsOf cs := rfl

@[simp] theorem unitsOf_append (cs ds : List Char) :
    unitsOf (cs ++ ds) = unitsOf cs + unitsOf ds := by
  induction cs with
  | nil => simp [unitsOf]
  | cons c cs ih => simp [ih, Nat.add_assoc]

@[simp] theorem units_append (s t : String) : units (s ++ t) = units s + units t := by
  simp [units]

/-! ## What begins at an offset -/

theorem getElem?_suffixesFrom_of_lt (cs : List Char) (found : Array (List Char)) {i : Nat}
    (h : i < found.size) : (suffixesFrom found cs)[i]? = found[i]? := by
  induction cs generalizing found with
  | nil => simp [suffixesFrom, Array.getElem?_push, Nat.ne_of_lt h]
  | cons c cs ih =>
    rw [suffixesFrom]
    split
    · rw [ih _ (by grind)]
      simp [Array.getElem?_push, Nat.ne_of_lt h]
    · rw [ih _ (by grind)]
      have : i ≠ found.size + 1 := by omega
      simp [Array.getElem?_push, Nat.ne_of_lt h, this]

theorem getElem?_suffixesFrom (cs : List Char) (found : Array (List Char)) {n : Nat}
    (h : n ≤ unitsOf cs) : (suffixesFrom found cs)[found.size + n]? = some (dropUnits n cs) := by
  induction cs generalizing found n with
  | nil =>
    obtain rfl : n = 0 := by simpa [unitsOf] using h
    simp [suffixesFrom, dropUnits]
  | cons c cs ih =>
    rw [unitsOf_cons] at h
    rw [suffixesFrom]
    rcases charUnits_eq c with one | two
    · rw [if_pos one]
      cases n with
      | zero =>
        rw [getElem?_suffixesFrom_of_lt _ _ (by simp)]
        simp [dropUnits]
      | succ n =>
        have step := ih (found.push (c :: cs)) (n := n) (by omega)
        rw [Array.size_push] at step
        rw [show found.size + (n + 1) = found.size + 1 + n by omega, step]
        simp [dropUnits, one]
    · rw [if_neg (by omega)]
      match n with
      | 0 =>
        rw [getElem?_suffixesFrom_of_lt _ _ (by grind)]
        rw [Array.getElem?_push, Array.getElem?_push]
        simp [dropUnits]
      | 1 =>
        rw [getElem?_suffixesFrom_of_lt _ _ (by simp), Array.getElem?_push]
        simp [dropUnits, two]
      | n + 2 =>
        have step := ih ((found.push (c :: cs)).push cs) (n := n) (by omega)
        rw [Array.size_push, Array.size_push] at step
        rw [show found.size + (n + 2) = found.size + 1 + 1 + n by omega, step]
        simp [dropUnits, two]

/-- The suffix at an offset is what is left when everything before the offset is dropped. -/
theorem getElem?_suffixes (s : String) {n : Nat} (h : n ≤ units s) :
    (suffixes s)[n]? = some (dropUnits n s.toList) := by
  have suffix := getElem?_suffixesFrom s.toList #[] h
  rwa [Array.size_empty, Nat.zero_add] at suffix

end Flowgraph.Text
