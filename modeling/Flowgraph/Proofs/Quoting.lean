import Flowgraph.Render.Dot

/-!
# Quoted texts on a line

A line of a drawing has texts in quotes, and other text around them.  Inside of quotes a backslash
opens an escape, so a quoted text may hold quotes, backslashes and line feeds of its own.  A reader
who goes through the line once, from left to right, finds every quoted text again, as it was before
it was escaped.
-/

namespace Flowgraph.Render

/-! ## Reading -/

/-- Where the reader of a line stands: outside of quotes, inside, or inside behind a backslash. -/
inductive Spot where
  | outside
  | inside
  | escape

/-- What a character stands for behind a backslash. -/
def unescape : Char → Option Char
  | '\\' => some '\\'
  | '"' => some '"'
  | 'n' => some '\n'
  | _ => none

/-- Put characters in front of the first text. -/
def ahead (s : List Char) : List (List Char) → List (List Char)
  | [] => []
  | t :: rest => (s ++ t) :: rest

/-- The texts outside and inside of quotes in turn, the first and the last one outside.  Nothing can
be read if a quote is not closed, or if an escape is unknown. -/
def pieces : Spot → List Char → Option (List (List Char))
  | .outside, [] => some [[]]
  | .inside, [] | .escape, [] => none
  | .outside, c :: cs =>
    if c = '"' then (pieces .inside cs).map ([] :: ·) else (pieces .outside cs).map (ahead [c])
  | .inside, c :: cs =>
    if c = '"' then (pieces .outside cs).map ([] :: ·)
    else if c = '\\' then pieces .escape cs
    else (pieces .inside cs).map (ahead [c])
  | .escape, c :: cs => do (pieces .inside cs).map (ahead [← unescape c])

/-- Read a line. -/
def read (line : List Char) : Option (List String) :=
  (pieces .outside line).map (·.map String.ofList)

/-! ## Writing -/

/-- What is written for a character inside of quotes. -/
def escape : Char → List Char
  | '\\' => ['\\', '\\']
  | '"' => ['\\', '"']
  | '\n' => ['\\', 'n']
  | c => [c]

/-- The line with these texts outside and inside of quotes in turn. -/
def composed : List String → String
  | [] => ""
  | [s] => s
  | s :: t :: rest => s ++ "\"" ++ escapeLabel t ++ "\"" ++ composed rest

/-- The line of a graph attribute. -/
theorem composed_attribute (key value : String) :
    composed [key, value, ";"] = key ++ "\"" ++ escapeLabel value ++ "\";" := by
  have closing : "\";" = "\"" ++ ";" := rfl
  rw [composed, composed, closing]
  simp only [String.append_assoc]

/-- A text that can stand outside of quotes. -/
def Outer (s : String) : Prop := '"' ∉ s.toList ∧ '\n' ∉ s.toList

instance (s : String) : Decidable (Outer s) := inferInstanceAs (Decidable (_ ∧ _))

/-- The texts make a line, if every second one is put in quotes. -/
inductive Legible : List String → Prop where
  | last {s : String} (outer : Outer s) : Legible [s]
  | quoted {s t : String} {rest : List String} (outer : Outer s) (legible : Legible rest) :
      Legible (s :: t :: rest)

/-- A text that is the same inside of quotes as outside. -/
def Plain (s : String) : Prop := ∀ c ∈ s.toList, c ≠ '"' ∧ c ≠ '\\' ∧ c ≠ '\n'

instance (s : String) : Decidable (Plain s) :=
  List.decidableBAll _ _

section

variable {s t : List Char} {c : Char} {rest : List Char} {ps : List (List Char)}

theorem toList_escapeLabel (s : String) : (escapeLabel s).toList = s.toList.flatMap escape := by
  rw [escapeLabel, String.toList_ofList]
  rfl

/-- Replace a character by others. -/
def replace (c : Char) (text : List Char) (s : List Char) : List Char :=
  s.flatMap fun d => if d = c then text else [d]

/-- Escaping is replacing one character after the other.  Backslashes come first: those that are
written for the other two are not escaped again. -/
theorem escapeLabel_eq_replace (s : String) : (escapeLabel s).toList =
    replace '\n' ['\\', 'n'] (replace '"' ['\\', '"'] (replace '\\' ['\\', '\\'] s.toList)) := by
  rw [toList_escapeLabel]
  induction s.toList with
  | nil => rfl
  | cons c cs ih =>
    simp only [replace] at ih
    by_cases backslash : c = '\\'
    · subst backslash
      simp [replace, escape, ih]
    by_cases quote : c = '"'
    · subst quote
      simp [replace, escape, ih]
    by_cases feed : c = '\n'
    · subst feed
      simp [replace, escape, ih]
    · simp [replace, escape, backslash, quote, feed, ih]

theorem ahead_nil : ahead [] = id := by
  funext ps
  cases ps <;> rfl

theorem ahead_ahead : ahead s ∘ ahead t = ahead (s ++ t) := by
  funext ps
  cases ps <;> simp [ahead]

/-- Up to the next quote the reader stays outside. -/
theorem pieces_outside (plain : '"' ∉ s) :
    pieces .outside (s ++ rest) = (pieces .outside rest).map (ahead s) := by
  induction s with
  | nil => rw [ahead_nil, Option.map_id, List.nil_append, id]
  | cons c s ih =>
    rw [List.mem_cons, not_or] at plain
    rw [List.cons_append, pieces, if_neg (Ne.symm plain.1), ih plain.2, Option.map_map, ahead_ahead]
    rfl

theorem escape_other (quote : c ≠ '"') (backslash : c ≠ '\\') (feed : c ≠ '\n') :
    escape c = [c] := by
  simp [escape]

/-- A character that is written inside of quotes is read as it was. -/
theorem pieces_escape :
    pieces .inside (escape c ++ rest) = (pieces .inside rest).map (ahead [c]) := by
  by_cases backslash : c = '\\'
  · subst backslash
    rfl
  by_cases quote : c = '"'
  · subst quote
    rfl
  by_cases feed : c = '\n'
  · subst feed
    rfl
  · rw [escape_other quote backslash feed, List.singleton_append, pieces, if_neg quote,
      if_neg backslash]

/-- The next quote that is not escaped closes the text. -/
theorem pieces_inside : pieces .inside (s.flatMap escape ++ '"' :: rest) =
    (pieces .outside rest).map (s :: ·) := by
  induction s with
  | nil => rfl
  | cons c s ih =>
    rw [List.flatMap_cons, List.append_assoc, pieces_escape, ih, Option.map_map]
    rfl

end

theorem escape_flat (c : Char) : '\n' ∉ escape c := by
  unfold escape
  split
  · decide
  · decide
  · decide
  · next feed => simpa [eq_comm] using feed

theorem escapeLabel_plain {s : String} (plain : Plain s) : escapeLabel s = s := by
  rw [← String.toList_inj, toList_escapeLabel]
  unfold Plain at plain
  generalize s.toList = cs at plain ⊢
  induction cs with
  | nil => rfl
  | cons c cs ih =>
    obtain ⟨quote, backslash, feed⟩ := plain c List.mem_cons_self
    rw [List.flatMap_cons, escape_other quote backslash feed,
      ih fun d member => plain d (List.mem_cons_of_mem c member), List.singleton_append]

namespace Plain

variable {s t : String}

theorem append (first : Plain s) (second : Plain t) : Plain (s ++ t) := by
  intro c member
  rw [String.toList_append, List.mem_append] at member
  exact member.elim (first c) (second c)

theorem outer (plain : Plain s) : Outer s :=
  ⟨fun member => (plain _ member).1 rfl, fun member => (plain _ member).2.2 rfl⟩

theorem repr (n : Nat) : Plain n.repr := by
  intro c member
  rw [Nat.repr_eq_ofList_toDigits, String.toList_ofList] at member
  have digit := Nat.isDigit_of_mem_toDigits (by decide) (by decide) member
  refine ⟨?_, ?_, ?_⟩ <;> rintro rfl <;> exact absurd digit (by decide)

end Plain

namespace Legible

variable {l : List String}

theorem pieces_composed (legible : Legible l) :
    pieces .outside (composed l).toList = some (l.map String.toList) := by
  induction legible with
  | @last s outer =>
    have read : pieces .outside (s.toList ++ []) = _ := pieces_outside outer.1
    rw [List.append_nil] at read
    rw [composed, read]
    simp [pieces, ahead]
  | @quoted s t rest outer legible ih =>
    have line : (composed (s :: t :: rest)).toList =
        s.toList ++ '"' :: (t.toList.flatMap escape ++ '"' :: (composed rest).toList) := by
      simp [composed, toList_escapeLabel]
    rw [line, pieces_outside outer.1, pieces, if_pos rfl, pieces_inside, ih]
    simp [ahead]

/-- What was written can be read. -/
theorem read_composed (legible : Legible l) : read (composed l).toList = some l := by
  rw [read, legible.pieces_composed]
  simp [Function.comp_def]

-- A backslash in front of an `n` is not taken for a line feed.
example : read (composed ["label=", "\n", ", ", "\\n\"", ";"]).toList =
    some ["label=", "\n", ", ", "\\n\"", ";"] := by decide

/-- Nothing that is written goes on for more than one line. -/
theorem flat (legible : Legible l) : '\n' ∉ (composed l).toList := by
  induction legible with
  | last outer => exact outer.2
  | @quoted s t rest outer legible ih =>
    have quoted : '\n' ∉ t.toList.flatMap escape := by
      intro member
      obtain ⟨c, -, feed⟩ := List.mem_flatMap.1 member
      exact escape_flat c feed
    simp [composed, toList_escapeLabel, outer.2, ih, quoted]

end Legible

end Flowgraph.Render
