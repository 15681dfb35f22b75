import Flowgraph.Console.Run

/-!
# Which settings count

A setting is what the options say; else what the nearest settings file says, if the value fits; else
the default.  `Flags.effective?` says so setting by setting, and is what the command line settles
on, whatever else is in the file.
-/

namespace Flowgraph

namespace Json

variable {α : Type}

/-- The value that comes last among the fields of a name, of those that `read` accepts. -/
def lastFit? (fields : List (String × Json)) (name : String) (read : Json → Option α) : Option α :=
  fields.reverse.findSome? fun field => if field.1 = name then read field.2 else none

/-- What an object says about a setting. -/
def setting? (j : Json) (name : String) (read : Json → Option α) : Option α :=
  match j with
  | .object fields => lastFit? fields name read
  | _ => none

/-- The names in a list of names. -/
def names? (j : Json) : Option (List String) :=
  j.array? >>= fun items => items.mapM Json.string?

theorem lastFit?_cons (field : String × Json) (rest : List (String × Json)) (name : String)
    (read : Json → Option α) :
    lastFit? (field :: rest) name read =
      (lastFit? rest name read).or (if field.1 = name then read field.2 else none) := by
  rw [lastFit?, lastFit?, List.reverse_cons, List.findSome?_append, List.findSome?_singleton]

end Json

namespace PartialSettings

/-- What some fields say, and what was there before where they say nothing. -/
def updated (s : PartialSettings) (fields : List (String × Json)) : PartialSettings where
  format := (Json.lastFit? fields "format" OutputFormat.ofJson?).or s.format
  typescript := (Json.lastFit? fields "typescript" Json.bool?).or s.typescript
  jsx := (Json.lastFit? fields "jsx" Json.bool?).or s.jsx
  functions := (Json.lastFit? fields "functions" Json.names?).or s.functions

theorem updated_cons (s : PartialSettings) (field : String × Json) (rest : List (String × Json)) :
    s.updated (field :: rest) = (s.updated [field]).updated rest := by
  simp only [updated, Json.lastFit?_cons, Option.or_assoc]
  rfl

/-- A field that is taken over says what its value reads as; any other says nothing. -/
theorem accept_updated (s : PartialSettings) (name : String) (value : Json) :
    match s.accept name value with
    | .ok s' => s' = s.updated [(name, value)]
    | .error _ => s = s.updated [(name, value)] := by
  have single : ∀ {α : Type} (other : String) (read : Json → Option α),
      Json.lastFit? [(name, value)] other read = if name = other then read value else none :=
    fun other read => Json.lastFit?_cons _ _ _ _
  rw [updated, single, single, single, single]
  by_cases format : name = "format"
  · subst format
    simp only [accept]
    cases OutputFormat.ofJson? value <;> rfl
  by_cases typescript : name = "typescript"
  · subst typescript
    simp only [accept]
    cases value.bool? <;> rfl
  by_cases jsx : name = "jsx"
  · subst jsx
    simp only [accept]
    cases value.bool? <;> rfl
  by_cases functions : name = "functions"
  · subst functions
    have names : (value.array? >>= fun items => items.mapM Json.string?) = value.names? := rfl
    simp only [accept, names]
    cases value.names? <;> rfl
  · simp [accept, format, typescript, jsx, functions]

theorem acceptAll_fst (s : PartialSettings) (fields : List (String × Json)) :
    (s.acceptAll fields).1 = s.updated fields := by
  induction fields generalizing s with
  | nil => rfl
  | cons field rest ih =>
    obtain ⟨name, value⟩ := field
    have step := s.accept_updated name value
    rw [updated_cons]
    unfold acceptAll
    cases taken : s.accept name value with
    | ok s' =>
      rw [taken] at step
      exact (ih s').trans (congrArg (updated · rest) step)
    | error warning =>
      rw [taken] at step
      exact (ih s).trans (congrArg (updated · rest) step)

theorem ofJson_fst (j : Json) :
    (ofJson j).1 = {
      format := j.setting? "format" OutputFormat.ofJson?
      typescript := j.setting? "typescript" Json.bool?
      jsx := j.setting? "jsx" Json.bool?
      functions := j.setting? "functions" Json.names? } := by
  cases j with
  | object fields =>
    rw [ofJson, acceptAll_fst]
    simp [updated, Json.setting?]
  | _ => rfl

end PartialSettings

namespace Console

end Console

end Flowgraph
