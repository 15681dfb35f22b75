import Flowgraph.Proofs.Labels
import Flowgraph.Render.Stanza

/-!
# Notes on targets

Under the fragments of a block its targets are noted: those of an `if` in two lines, where a loop
ends in one.  `body` is the text of fragments and note together.  It depends on the graph through
the note only.
-/

namespace Flowgraph

namespace Render

/-- What is noted under the fragments of a block. -/
inductive Note where
  | nothing
  | arms (thenLabel elseLabel : String)
  | loopEnd (label : String)
  deriving DecidableEq, Repr

namespace Note

/-- The note on targets with these labels. -/
def ofTargets (thenLabel elseLabel exitLabel : Option String) : Note :=
  match thenLabel, exitLabel with
  | some thenLabel, _ => arms thenLabel (elseLabel.getD "-")
  | none, some exitLabel => loopEnd exitLabel
  | none, none => nothing

/-- Both targets of an `if` are noted. -/
def isArms : Note → Bool
  | arms _ _ => true
  | nothing | loopEnd _ => false

/-- The lines of a note; `margin` spaces stand before the else-target. -/
def text (margin : Nat) : Note → String
  | nothing => ""
  | arms thenLabel elseLabel => Fragment.indent ++ "# then: " ++ thenLabel ++ "\n" ++
      spaces margin ++ "# else: " ++ elseLabel ++ "\n"
  | loopEnd label => Fragment.indent ++ "# loop_end: " ++ label ++ "\n"

end Note

/-- The text of fragments with the note under them. -/
def body (note : Note) (lines : List String) : String :=
  let shown := layout note.isArms false false lines
  let margin := Text.units Fragment.indent + shown.width + Text.units Fragment.indent
  String.join shown.pieces ++ note.text margin

theorem bodyText_eq {g : Graph} {x : Block} {thenLabel elseLabel exitLabel : Option String}
    (isThen : g.targetLabel? x.thenTarget = .ok thenLabel)
    (isElse : g.targetLabel? x.elseTarget = .ok elseLabel)
    (isExit : g.targetLabel? x.loopExit = .ok exitLabel) :
    bodyText g x = .ok (body (.ofTargets thenLabel elseLabel exitLabel) x.lines) := by
  simp only [bodyText, isThen, isElse, isExit, bind, Except.bind, pure, Except.pure]
  cases thenLabel with
  | some thenLabel => simp [body, Note.ofTargets, Note.isArms, Note.text, String.append_assoc]
  | none =>
    cases exitLabel with
    | some exitLabel => simp [body, Note.ofTargets, Note.isArms, Note.text, String.append_assoc]
    | none => simp [body, Note.ofTargets, Note.isArms, Note.text]

end Render

namespace Graph

variable {g : Graph} {h v : Nat} {x : Block}

/-- The note on the targets of a live block. -/
def note (g : Graph) (x : Block) : Render.Note :=
  .ofTargets (x.thenTarget.map g.label) (x.elseTarget.map g.label) (x.loopExit.map g.label)

namespace Canonical

variable (canonical : g.Canonical) (live : g.Live h x)

include canonical live

theorem thenLabel_eq : g.targetLabel? x.thenTarget = .ok (x.thenTarget.map g.label) :=
  canonical.targetLabel?_eq fun _ target => canonical.wellFormed.live_target live (.inl target)

theorem elseLabel_eq : g.targetLabel? x.elseTarget = .ok (x.elseTarget.map g.label) :=
  canonical.targetLabel?_eq fun _ target =>
    canonical.wellFormed.live_target live (.inr (.inl target))

theorem exitLabel_eq : g.targetLabel? x.loopExit = .ok (x.loopExit.map g.label) :=
  canonical.targetLabel?_eq fun _ target =>
    canonical.wellFormed.live_target live (.inr (.inr target))

theorem bodyText_eq : Render.bodyText g x = .ok (Render.body (g.note x) x.lines) :=
  Render.bodyText_eq (canonical.thenLabel_eq live) (canonical.elseLabel_eq live)
    (canonical.exitLabel_eq live)

/-- In a pruned graph both arms are noted, or the end of a loop, or there is no target. -/
theorem note_cases :
    (∃ t e, x.thenTarget = some t ∧ x.elseTarget = some e ∧ x.loopExit = none ∧
      g.note x = .arms (g.label t) (g.label e)) ∨
    (∃ z, x.thenTarget = none ∧ x.elseTarget = none ∧ x.loopExit = some z ∧
      g.note x = .loopEnd (g.label z)) ∨
    (x.thenTarget = none ∧ x.elseTarget = none ∧ x.loopExit = none ∧ g.note x = .nothing) := by
  obtain ⟨both, single⟩ := canonical.wellFormed.targets h x live
  cases isThen : x.thenTarget with
  | some t =>
    rw [isThen] at both single
    obtain ⟨e, isElse⟩ := Option.isSome_iff_exists.1 (both.1 rfl)
    have noExit := single rfl
    exact .inl ⟨t, e, rfl, isElse, noExit,
      by simp [note, isThen, isElse, noExit, Render.Note.ofTargets]⟩
  | none =>
    have noElse : x.elseTarget = none := by simpa [isThen] using both
    cases isExit : x.loopExit with
    | some z =>
      exact .inr (.inl ⟨z, rfl, noElse, rfl, by simp [note, isThen, isExit, Render.Note.ofTargets]⟩)
    | none =>
      exact .inr (.inr ⟨rfl, noElse, rfl, by simp [note, isThen, isExit, Render.Note.ofTargets]⟩)

end Canonical

end Graph

end Flowgraph
