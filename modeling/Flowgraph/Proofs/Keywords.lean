import Flowgraph.Proofs.Layout

/-!
# Keywords among the fragments

The fragments of a statement without control flow hold no header keyword, because a token is
written with a space behind it; a header holds exactly one.
-/

namespace Flowgraph

/-- How many choices are made in a block with these fragments: one for each header. -/
def Fragment.choices (lines : List String) : Nat := lines.countP Fragment.isKeyword

namespace Fragment

@[simp] theorem choices_nil : choices [] = 0 := rfl

@[simp] theorem choices_append (lines lines' : List String) :
    choices (lines ++ lines') = choices lines + choices lines' :=
  List.countP_append

theorem isKeyword_token (token : String) : isKeyword (token ++ " ") = false := by
  have last : ∀ keyword : String, keyword.toList.getLast? ≠ some ' ' → (token ++ " " == keyword) = false := by
    intro keyword other
    rw [beq_eq_false_iff_ne]
    rintro rfl
    simp at other
  simp [isKeyword, last]

@[simp] theorem choices_ofTokens (tokens : List String) : choices (ofTokens tokens) = 0 := by
  simp [choices, ofTokens, List.countP_eq_zero, isKeyword_token]

@[simp] theorem choices_statement (tokens : List String) : choices (statement tokens) = 0 := by
  have := choices_ofTokens tokens
  simp_all [choices, statement, isKeyword, indent]

@[simp] theorem choices_clause (tokens : List String) : choices (clause tokens) = 0 := by
  have := choices_ofTokens tokens
  simp_all [choices, clause, isKeyword, indent]

@[simp] theorem choices_ifHeader (condition : List String) : choices (ifHeader condition) = 1 := by
  have := choices_ofTokens condition
  simp_all [choices, ifHeader, isKeyword, indent]

@[simp] theorem choices_whileHeader (condition : List String) :
    choices (whileHeader condition) = 1 := by
  have := choices_ofTokens condition
  simp_all [choices, whileHeader, isKeyword, indent]

@[simp] theorem choices_forHeader (condition : List String) :
    choices (forHeader condition) = 1 := by
  have := choices_ofTokens condition
  simp_all [choices, forHeader, isKeyword, indent]

end Fragment

/-- No choice was made yet in the block in which control is. -/
def Spot.Plain (P : Spot) : Prop := ∀ i p, P = some (i, p) → Fragment.choices p = 0

theorem Spot.plain_start (i : Nat) : Spot.Plain (some (i, [])) := by
  simp [Plain]

/-- The choices of a block are those that are made from the spot on. -/
theorem Spot.Plain.choices_append {i : Nat} {p : List String} (plain : Spot.Plain (some (i, p)))
    (lines : List String) : Fragment.choices (p ++ lines) = Fragment.choices lines := by
  rw [Fragment.choices_append, plain i p rfl, Nat.zero_add]

namespace Graph

@[simp] theorem choices_clauseLines (clause : Option (List String)) :
    Fragment.choices (clauseLines clause) = 0 := by
  cases clause with
  | none => rfl
  | some tokens => exact Fragment.choices_clause tokens

variable {g : Graph} {P Q : Spot} {s : Statement} {n m : Nat}

theorem Layout.plain (layout : g.Layout s P Q n m) (plain : P.Plain) : Q.Plain := by
  induction layout with
  | skip | nil => exact plain
  | simple => simp [Spot.Plain, plain _ _ rfl]
  | ret => simp [Spot.Plain]
  | cons first second ih₁ ih₂ => exact ih₂ (ih₁ plain)
  | branch | whileLoop | forLoop => exact Spot.plain_start _

end Graph

end Flowgraph
