import Flowgraph.Statement

/-!
# Statements that always return

Control never gets past a statement that always returns.  Two statements are twins if they differ
only in what stands behind such statements.
-/

namespace Flowgraph

namespace Statement

/-- Control never gets past the statement: it is a return, a sequence with a statement of this kind,
or an `if` with two arms of this kind. -/
inductive AlwaysReturns : Statement → Prop where
  | ret (tokens : List String) (location : Option Location) : AlwaysReturns (.ret tokens location)
  | sequence {s : Statement} {body : List Statement} (location : Option Location)
      (member : s ∈ body) (returns : AlwaysReturns s) : AlwaysReturns (.sequence body location)
  | branch (condition : List String) {consequent alternate : Statement}
      (location : Option Location) (thenArm : AlwaysReturns consequent)
      (elseArm : AlwaysReturns alternate) :
      AlwaysReturns (.branch condition consequent (some alternate) location)

/-- The statements differ only in what stands behind statements that always return. -/
inductive Twin : Statement → Statement → Prop where
  | simple (tokens : List String) (location : Option Location) :
      Twin (.simple tokens location) (.simple tokens location)
  | ret (tokens : List String) (location : Option Location) :
      Twin (.ret tokens location) (.ret tokens location)
  | nil (location : Option Location) : Twin (.sequence [] location) (.sequence [] location)
  | cons {s s' : Statement} {rest rest' : List Statement} {location : Option Location}
      (first : Twin s s') (second : Twin (.sequence rest location) (.sequence rest' location)) :
      Twin (.sequence (s :: rest) location) (.sequence (s' :: rest') location)
  | behind {s s' : Statement} (rest rest' : List Statement) (location : Option Location)
      (returns : AlwaysReturns s) (first : Twin s s') :
      Twin (.sequence (s :: rest) location) (.sequence (s' :: rest') location)
  | branch (condition : List String) {consequent consequent' : Statement}
      {alternate alternate' : Option Statement} (location : Option Location)
      (thenArm : Twin consequent consequent')
      (elseArm : Twin (alternate.getD (.sequence [] none)) (alternate'.getD (.sequence [] none))) :
      Twin (.branch condition consequent alternate location)
        (.branch condition consequent' alternate' location)
  | whileLoop (condition : List String) {body body' : Statement} (location : Option Location)
      (inside : Twin body body') :
      Twin (.whileLoop condition body location) (.whileLoop condition body' location)
  | forLoop (init : Option (List String)) (condition : List String) (update : Option (List String))
      {body body' : Statement} (location : Option Location) (inside : Twin body body') :
      Twin (.forLoop init condition update body location)
        (.forLoop init condition update body' location)

theorem alwaysReturns_cons {s : Statement} {rest : List Statement} {location : Option Location} :
    AlwaysReturns (.sequence (s :: rest) location) ↔
      AlwaysReturns s ∨ AlwaysReturns (.sequence rest location) := by
  constructor
  · intro returns
    cases returns with
    | sequence _ member returns =>
      obtain rfl | member := List.mem_cons.1 member
      · exact .inl returns
      · exact .inr (.sequence location member returns)
  · intro either
    cases either with
    | inl returns => exact .sequence location List.mem_cons_self returns
    | inr returns =>
      cases returns with
      | sequence _ member returns =>
        exact .sequence location (List.mem_cons_of_mem _ member) returns

theorem not_alwaysReturns_nil {location : Option Location} :
    ¬ AlwaysReturns (.sequence [] location) := by
  intro returns
  cases returns with
  | sequence _ member _ => cases member

theorem alwaysReturns_branch {condition : List String} {consequent : Statement}
    {alternate : Option Statement} {location : Option Location} :
    AlwaysReturns (.branch condition consequent alternate location) ↔
      AlwaysReturns consequent ∧ AlwaysReturns (alternate.getD (.sequence [] none)) := by
  constructor
  · intro returns
    cases returns with
    | branch _ _ thenArm elseArm => exact ⟨thenArm, elseArm⟩
  · rintro ⟨thenArm, elseArm⟩
    cases alternate with
    | none => exact absurd elseArm not_alwaysReturns_nil
    | some alternate => exact .branch condition location thenArm elseArm

namespace Twin

theorem refl (s : Statement) : Twin s s := by
  induction s using Statement.induction with
  | simple tokens location => exact .simple tokens location
  | sequence body location each =>
    induction body with
    | nil => exact .nil location
    | cons s rest ih =>
      exact .cons (each s List.mem_cons_self)
        (ih fun t member => each t (List.mem_cons_of_mem _ member))
  | branch condition consequent alternate location thenArm elseArm =>
    refine .branch condition location thenArm ?_
    cases alternate with
    | none => exact .nil none
    | some alternate => exact elseArm alternate rfl
  | whileLoop condition body location inside => exact .whileLoop condition location inside
  | forLoop init condition update body location inside =>
    exact .forLoop init condition update location inside
  | ret tokens location => exact .ret tokens location

end Twin

end Statement

end Flowgraph
