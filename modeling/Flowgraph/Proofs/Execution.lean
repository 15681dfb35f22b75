import Flowgraph.Fragment
import Flowgraph.Statement

/-!
# Executing statements

What a statement does when it is executed: it makes choices and writes fragments.  Every time the
header of an `if` or of a loop is evaluated the next choice says where control goes, so an execution
is given by the choices, the fragments, and by whether it has returned from the function.
-/

namespace Flowgraph

/-- How control leaves a statement. -/
inductive Outcome where
  /-- Control goes on behind the statement. -/
  | normal
  /-- The function has returned. -/
  | returned
  deriving DecidableEq, Repr

/-- The fragments of an optional clause of a `for` header. -/
def clauseLines (clause : Option (List String)) : List String :=
  clause.elim [] Fragment.clause

namespace Statement

/-- The statement runs with these choices, writes these fragments, and control leaves it so. -/
inductive Runs : Statement → List Bool → List String → Outcome → Prop where
  | simple (tokens : List String) (location : Option Location) :
      Runs (.simple tokens location) [] (Fragment.statement tokens) .normal
  | ret (tokens : List String) (location : Option Location) :
      Runs (.ret tokens location) [] (Fragment.statement tokens) .returned
  | nil (location : Option Location) : Runs (.sequence [] location) [] [] .normal
  | cons {s : Statement} {rest : List Statement} {location : Option Location} {D D' : List Bool}
      {F F' : List String} {outcome : Outcome} (first : Runs s D F .normal)
      (second : Runs (.sequence rest location) D' F' outcome) :
      Runs (.sequence (s :: rest) location) (D ++ D') (F ++ F') outcome
  | stop {s : Statement} (rest : List Statement) (location : Option Location) {D : List Bool}
      {F : List String} (first : Runs s D F .returned) :
      Runs (.sequence (s :: rest) location) D F .returned
  | thenArm (condition : List String) {consequent : Statement} (alternate : Option Statement)
      (location : Option Location) {D : List Bool} {F : List String} {outcome : Outcome}
      (arm : Runs consequent D F outcome) :
      Runs (.branch condition consequent alternate location) (true :: D)
        (Fragment.ifHeader condition ++ F) outcome
  | elseArm (condition : List String) (consequent : Statement) {alternate : Statement}
      (location : Option Location) {D : List Bool} {F : List String} {outcome : Outcome}
      (arm : Runs alternate D F outcome) :
      Runs (.branch condition consequent (some alternate) location) (false :: D)
        (Fragment.ifHeader condition ++ F) outcome
  | noElse (condition : List String) (consequent : Statement) (location : Option Location) :
      Runs (.branch condition consequent none location) [false] (Fragment.ifHeader condition) .normal
  | whileDone (condition : List String) (body : Statement) (location : Option Location) :
      Runs (.whileLoop condition body location) [false] (Fragment.whileHeader condition) .normal
  | whileReturn (condition : List String) {body : Statement} (location : Option Location)
      {D : List Bool} {F : List String} (inside : Runs body D F .returned) :
      Runs (.whileLoop condition body location) (true :: D)
        (Fragment.whileHeader condition ++ F) .returned
  | whileAgain {condition : List String} {body : Statement} {location : Option Location}
      {D D' : List Bool} {F F' : List String} {outcome : Outcome} (inside : Runs body D F .normal)
      (again : Runs (.whileLoop condition body location) D' F' outcome) :
      Runs (.whileLoop condition body location) (true :: D ++ D')
        (Fragment.whileHeader condition ++ F ++ F') outcome
  | forInit (init : List String) {condition : List String} {update : Option (List String)}
      {body : Statement} {location : Option Location} {D : List Bool} {F : List String}
      {outcome : Outcome} (loop : Runs (.forLoop none condition update body location) D F outcome) :
      Runs (.forLoop (some init) condition update body location) D (Fragment.clause init ++ F) outcome
  | forDone (condition : List String) (update : Option (List String)) (body : Statement)
      (location : Option Location) :
      Runs (.forLoop none condition update body location) [false] (Fragment.forHeader condition)
        .normal
  | forReturn (condition : List String) (update : Option (List String)) {body : Statement}
      (location : Option Location) {D : List Bool} {F : List String}
      (inside : Runs body D F .returned) :
      Runs (.forLoop none condition update body location) (true :: D)
        (Fragment.forHeader condition ++ F) .returned
  | forAgain {condition : List String} {update : Option (List String)} {body : Statement}
      {location : Option Location} {D D' : List Bool} {F F' : List String} {outcome : Outcome}
      (inside : Runs body D F .normal)
      (again : Runs (.forLoop none condition update body location) D' F' outcome) :
      Runs (.forLoop none condition update body location) (true :: D ++ D')
        (Fragment.forHeader condition ++ F ++ clauseLines update ++ F') outcome

variable {D : List Bool} {F : List String} {outcome : Outcome}

/-- An `if` whose second arm runs, or is missing. -/
theorem Runs.otherwise {alternate : Option Statement} (condition : List String)
    (consequent : Statement) (l : Option Location)
    (runs : (alternate.getD (.sequence [] none)).Runs D F outcome) :
    (branch condition consequent alternate l).Runs (false :: D)
      (Fragment.ifHeader condition ++ F) outcome := by
  cases alternate with
  | some alternate => exact .elseArm condition consequent l runs
  | none =>
    cases runs
    simpa using Runs.noElse condition consequent l

/-- A loop with its first clause. -/
theorem Runs.init {condition : List String} {update : Option (List String)}
    {body : Statement} {l : Option Location} (init : Option (List String))
    (runs : (forLoop none condition update body l).Runs D F outcome) :
    (forLoop init condition update body l).Runs D (clauseLines init ++ F) outcome := by
  cases init with
  | none => exact runs
  | some init => exact .forInit init runs

end Statement

end Flowgraph
