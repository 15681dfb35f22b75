import Flowgraph.Proofs.Likeness
import Flowgraph.Proofs.Shapes
import Flowgraph.Proofs.Views

/-!
# The wording of tokens

Functions of one shape are printed alike, whatever their tokens say.  The text is put together from
fragments, and it takes keywords and the indent for what they are by their text.  No token is printed
like a keyword, but the token of three spaces is printed like the indent: in the condition of an `if`
it takes the placeholder that belongs behind the header.  So the functions have to agree on where
this token stands in such conditions; everywhere else no placeholder is due.
-/

namespace Flowgraph

variable {D C : String → String → Prop} {line line' : String} {lines lines' : List String}

/-- The token of three spaces stands in both places or in none. -/
def Fragment.SameIndent (t t' : String) : Prop := t = "   " ↔ t' = "   "

/-- The fragments are the same, or they are printed for tokens of which `D` or `C` holds. -/
def Fragment.Matches (D C : String → String → Prop) (line line' : String) : Prop :=
  line = line' ∨ ∃ t t', (D t t' ∨ C t t') ∧ line = t ++ " " ∧ line' = t' ++ " "

/-! ## Fragments -/

namespace Fragment

theorem token_ne_if (token : String) : (token ++ " " == "if") = false := by
  have plain := isKeyword_token token
  simp only [isKeyword, Bool.or_eq_false_iff] at plain
  exact plain.1.1

/-- No token is printed like a placeholder. -/
theorem token_ne_placeholder (token : String) : (token ++ " " == Render.placeholder) = false := by
  rw [beq_eq_false_iff_ne]
  intro eq
  have last := congrArg (fun s => s.toList.getLast?) eq
  simp [Render.placeholder] at last

/-- Only the token of three spaces is printed like the indent. -/
theorem token_eq_indent {t t' : String} (same : SameIndent t t') :
    (t ++ " " == indent) = (t' ++ " " == indent) := by
  have spaces : indent = "   " ++ " " := by decide
  rw [Bool.eq_iff_iff, beq_iff_eq, beq_iff_eq, spaces, String.append_left_inj, String.append_left_inj]
  exact same

theorem Matches.isKeyword_eq (same : Matches D C line line') : isKeyword line = isKeyword line' := by
  obtain rfl | ⟨t, t', -, rfl, rfl⟩ := same
  · rfl
  · rw [isKeyword_token, isKeyword_token]

theorem Matches.isPlaceholder_eq (same : Matches D C line line') :
    (line == Render.placeholder) = (line' == Render.placeholder) := by
  obtain rfl | ⟨t, t', -, rfl, rfl⟩ := same
  · rfl
  · rw [token_ne_placeholder, token_ne_placeholder]

end Fragment

theorem Respelled.forall₂_matches {behind : Bool} (respelled : Respelled D C behind lines lines') :
    List.Forall₂ (Fragment.Matches D C) lines lines' := by
  induction respelled with
  | nil => exact .nil
  | indent _ ih | opens _ ih | fixed _ _ _ ih => exact .cons (.inl rfl) ih
  | token related _ ih => exact .cons (.inr ⟨_, _, .inl related, rfl, rfl⟩) ih
  | condition related _ ih => exact .cons (.inr ⟨_, _, .inr related, rfl, rfl⟩) ih

theorem Respelled.any_isKeyword_eq {behind : Bool} (respelled : Respelled D C behind lines lines') :
    lines.any Fragment.isKeyword = lines'.any Fragment.isKeyword := by
  have keywords := map_eq_of_forall₂ respelled.forall₂_matches fun _ _ same => same.isKeyword_eq
  have same := congrArg (List.any · id) keywords
  simpa only [List.any_map, Function.id_comp] using same

namespace Render

variable {behind due : Bool}

/-- The indent lets a placeholder that is due stand in front of it. -/
theorem pieces_indent (hasThen due noted : Bool) (rest : List String) :
    (layout hasThen due noted (Fragment.indent :: rest)).pieces =
      (if due then [placeholder] else []) ++
        Fragment.indent :: (layout hasThen false noted rest).pieces := by
  have keyword : Fragment.isKeyword Fragment.indent = false := by decide
  have other : (Fragment.indent == "if") = false := by decide
  simp [layout, keyword, other]

theorem pieces_token (hasThen due noted : Bool) (token : String) (rest : List String) :
    (layout hasThen due noted ((token ++ " ") :: rest)).pieces =
      (if due && token ++ " " == Fragment.indent then [placeholder] else []) ++ (token ++ " ") ::
        (layout hasThen (due && !(token ++ " " == Fragment.indent)) noted rest).pieces := by
  cases due <;> simp [layout, Fragment.isKeyword_token, Fragment.token_ne_if]

/-- Fragments of statements that differ in tokens are laid out alike: a placeholder is due only
behind an `if`. -/
theorem matches_layout (agree : ∀ t t', C t t' → Fragment.SameIndent t t')
    (respelled : Respelled D C behind lines lines') (only : due = true → behind = true)
    (hasThen noted : Bool) :
    List.Forall₂ (Fragment.Matches D C) (layout hasThen due noted lines).pieces
      (layout hasThen due noted lines').pieces := by
  have kept : ∀ pieces, List.Forall₂ (Fragment.Matches D C) pieces pieces := fun pieces =>
    List.forall₂_same.2 fun _ _ => .inl rfl
  induction respelled generalizing due noted with
  | nil => exact kept _
  | indent rest ih =>
    rw [pieces_indent, pieces_indent]
    exact List.rel_append (kept _) (.cons (.inl rfl) (ih (fun due => due) _))
  | opens rest ih =>
    -- Whether a placeholder is due from here on depends on the keywords behind, which are the same.
    simp only [layout]
    rw [← rest.any_isKeyword_eq]
    exact List.rel_append (kept _) (.cons (.inl rfl) (ih (fun _ => rfl) _))
  | fixed line other rest ih =>
    have other : (line == "if") = false := beq_false_of_ne other
    simp only [layout, other, Bool.false_and, Bool.or_false]
    rw [← rest.any_isKeyword_eq]
    refine List.rel_append (kept _) (.cons (.inl rfl) (ih (fun still => only ?_) _))
    exact (Bool.and_eq_true _ _ ▸ still).1
  | token related rest ih =>
    -- Nothing is due, so it does not matter whether the token is printed like the indent.
    obtain rfl : due = false := by simpa using only
    rw [pieces_token, pieces_token]
    exact .cons (.inr ⟨_, _, .inl related, rfl, rfl⟩) (ih (fun due => due) _)
  | condition related rest ih =>
    rw [pieces_token, pieces_token, ← Fragment.token_eq_indent (agree _ _ related)]
    exact List.rel_append (kept _)
      (.cons (.inr ⟨_, _, .inr related, rfl, rfl⟩) (ih (fun _ => rfl) _))

end Render

/-! ## Sketches -/

/-- What the text shows of a block, apart from the name of the function and the fragments. -/
structure Sketch where
  mark : Mark
  predecessors : List Mark
  successors : List Mark
  thenTarget : Option Mark
  elseTarget : Option Mark
  loopExit : Option Mark
  deriving DecidableEq, Repr

namespace Sketch

/-- The record of a block with this sketch. -/
def record (s : Sketch) (name : String) (lines : List String) : BlockRecord where
  name := s.mark.label name
  lines
  predecessors := s.predecessors.map (Mark.label name)
  successors := s.successors.map (Mark.label name)
  thenTarget := s.thenTarget.map (Mark.label name)
  elseTarget := s.elseTarget.map (Mark.label name)
  loopExit := s.loopExit.map (Mark.label name)

/-- The stanza of a block with this sketch: the pieces stand one behind the other, and `margin`
spaces stand in front of the else-target. -/
def stanza (s : Sketch) (name : String) (pieces : List String) (margin : Nat) : String :=
  let b := s.record name []
  "@" ++ b.name ++ " \x7b\n" ++ (String.join pieces ++ b.note.text margin) ++ "\x7d\n" ++
    b.neighbours

end Sketch

/-- The fragments of a block with the placeholders between them. -/
def BlockRecord.pieces (b : BlockRecord) : List String :=
  (Render.layout b.note.isArms false false b.lines).pieces

/-- The blocks have the same sketch, and their fragments match one by one, with placeholders in the
same places. -/
structure Sketch.Covers (s : Sketch) (D C : String → String → Prop) (name name' : String)
    (b b' : BlockRecord) : Prop where
  first : b = s.record name b.lines
  second : b' = s.record name' b'.lines
  lines : List.Forall₂ (Fragment.Matches D C) b.lines b'.lines
  pieces : List.Forall₂ (Fragment.Matches D C) b.pieces b'.pieces
  placeholders :
    b.pieces.map (· == Render.placeholder) = b'.pieces.map (· == Render.placeholder)
  text : ∃ margin, b.stanza = s.stanza name b.pieces margin
  text' : ∃ margin, b'.stanza = s.stanza name' b'.pieces margin

namespace Sketch

variable {s : Sketch} {name name' : String}

theorem stanza_record (s : Sketch) (name : String) (lines : List String) :
    ∃ margin, (s.record name lines).stanza = s.stanza name (s.record name lines).pieces margin :=
  ⟨_, rfl⟩

theorem covers_record (agree : ∀ t t', C t t' → Fragment.SameIndent t t')
    (respelled : Respells D C lines lines') :
    s.Covers D C name name' (s.record name lines) (s.record name' lines') := by
  have arms : (s.record name lines).note.isArms = (s.record name' lines').note.isArms := by
    simp only [record, BlockRecord.note, Render.Note.ofTargets]
    cases s.thenTarget <;> cases s.loopExit <;> rfl
  have pieces : List.Forall₂ (Fragment.Matches D C) (s.record name lines).pieces
      (s.record name' lines').pieces := by
    rw [BlockRecord.pieces, BlockRecord.pieces, ← arms]
    exact Render.matches_layout agree (respelled false) (fun due => due) _ _
  exact ⟨rfl, rfl, (respelled false).forall₂_matches, pieces,
    map_eq_of_forall₂ pieces fun _ _ same => same.isPlaceholder_eq, s.stanza_record name lines,
    s.stanza_record name' lines'⟩

end Sketch

namespace Graph

variable {g g' : Graph} {S : List String → List String → Prop} {h : Nat} {x : Block}

/-- The sketch of a live block. -/
def sketch (g : Graph) (h : Nat) : Sketch where
  mark := g.mark h
  predecessors := (g.order.filter (· ∈ (g.filed h).2.predecessors.toList)).map g.mark
  successors := (g.order.filter (· ∈ (g.filed h).2.successors.toList)).map g.mark
  thenTarget := (g.filed h).2.thenTarget.map g.mark
  elseTarget := (g.filed h).2.elseTarget.map g.mark
  loopExit := (g.filed h).2.loopExit.map g.mark

theorem recordOf_eq : g.recordOf h = (g.sketch h).record g.name (g.filed h).2.lines := by
  have label : g.label = Mark.label g.name ∘ g.mark := rfl
  simp [recordOf, Sketch.record, sketch, listed, label]

namespace Echoes

variable (echoes : g.Echoes S g')

include echoes

theorem isSome_live? (h : Nat) : (g.live? h).isSome = (g'.live? h).isSome := by
  have related := echoes.blocks h
  unfold live? core?
  generalize g.block? h = o at related
  generalize g'.block? h = o' at related
  cases related with
  | none => rfl
  | @some x x' alike =>
    have alive : x.core.isAlive = x'.core.isAlive := alike.isAlive
    simp [alive]

theorem roll : g.roll = g'.roll := by
  rw [Graph.roll, Graph.roll, echoes.table]
  exact List.filter_congr fun h _ => echoes.isSome_live? h

theorem order : g.order = g'.order := by rw [Graph.order, Graph.order, echoes.roll]

theorem mark : g.mark = g'.mark := by
  funext h
  rw [Graph.mark, Graph.mark, echoes.numbering]

theorem filed (live : g.Live h x) : (g.filed h).2.Echoes S (g'.filed h).2 := by
  obtain ⟨x', found, alike⟩ := echoes.block live.1
  rw [live.filed, filed_of_block found]
  exact alike

theorem sketch (live : g.Live h x) : g.sketch h = g'.sketch h := by
  have alike := echoes.filed live
  have targets : (g.filed h).2.thenTarget = (g'.filed h).2.thenTarget ∧
      (g.filed h).2.elseTarget = (g'.filed h).2.elseTarget ∧
      (g.filed h).2.loopExit = (g'.filed h).2.loopExit :=
    ⟨(congrArg Block.thenTarget alike.bare :), (congrArg Block.elseTarget alike.bare :),
      (congrArg Block.loopExit alike.bare :)⟩
  rw [Graph.sketch, Graph.sketch, echoes.mark, echoes.order, alike.predecessors, alike.successors,
    targets.1, targets.2.1, targets.2.2]

end Echoes

end Graph

namespace SourceFunction

open Flowgraph.Graph

variable {f f' : SourceFunction}

/-- Functions of one shape that agree on where the token of three spaces stands in the condition of
an `if` are printed alike, up to the tokens and to the space in front of else-targets. -/
theorem text_reworded (shaped : Statement.Shaped D C f.body f'.body)
    (agree : ∀ t t', C t t' → Fragment.SameIndent t t') :
    ∃ g g' report, f.prunedGraph = .ok (g, report) ∧ f'.prunedGraph = .ok (g', report) ∧
      Render.graphText g = .ok g.recorded.text ∧ Render.graphText g' = .ok g'.recorded.text ∧
      List.Forall₂ (fun b b' => ∃ s : Sketch, s.Covers D C f.name f'.name b b') g.recorded.blocks
        g'.recorded.blocks := by
  obtain ⟨g₀, live, g, report, draws, reached, run, pruned⟩ := f.prunedGraph_run
  obtain ⟨g', run', echoes⟩ := prunedGraph_echoes shaped run
  obtain ⟨g₀', live', g'', report', draws', reached', run'', pruned'⟩ := f'.prunedGraph_run
  cases run'.symm.trans run''
  have canonical := pruned.canonical draws reached
  obtain ⟨name, -, -, phase⟩ := pruned.signature draws
  obtain ⟨name', -, -, phase'⟩ := pruned'.signature draws'
  refine ⟨g, g', report, run, run', canonical.graphText_eq phase,
    (pruned'.canonical draws' reached').graphText_eq phase', ?_⟩
  have shown : g.shown = g'.shown := by rw [Graph.shown, Graph.shown, echoes.roll]
  simp only [recorded]
  rw [← shown, List.forall₂_map_left_iff, List.forall₂_map_right_iff, List.forall₂_same]
  intro h member
  obtain ⟨x, alive⟩ := canonical.mem_shown.1 member
  rw [recordOf_eq, recordOf_eq, ← echoes.sketch alive, name, name']
  exact ⟨g.sketch h, Sketch.covers_record agree (echoes.filed alive).lines⟩

/-- A function that tests `condition` in front of a statement and does nothing about it. -/
def tests (condition : List String) (last : String) : SourceFunction where
  name := "f"
  returnType := ["int"]
  parameters := []
  body := .sequence [.branch condition (.sequence [] none) none none, .simple ["x", last] none] none

theorem tests_shaped {token token' last last' : String} (condition : C token token')
    (same : D "x" "x") (ends : D last last') :
    Statement.Shaped D C (tests [token] last).body (tests [token'] last').body :=
  .cons (.ifThen (.cons condition .nil) .nil) (.cons (.simple (.cons same (.cons ends .nil))) .nil)

/-- A keyword as the token of a condition, and three spaces as the token of a statement. -/
theorem text_reworded_keyword :
    Statement.Shaped (fun t t' => t = t' ∨ t' = "   ") (fun t t' => t = "c" ∧ t' = "if")
      (tests ["c"] ";").body (tests ["if"] "   ").body ∧
    (∀ t t', t = "c" ∧ t' = "if" → Fragment.SameIndent t t') ∧
    ∃ g g' report, (tests ["c"] ";").prunedGraph = .ok (g, report) ∧
      (tests ["if"] "   ").prunedGraph = .ok (g', report) ∧
      Render.graphText g = .ok g.recorded.text ∧ Render.graphText g' = .ok g'.recorded.text ∧
      List.Forall₂ (fun b b' => ∃ s : Sketch,
          s.Covers (fun t t' => t = t' ∨ t' = "   ") (fun t t' => t = "c" ∧ t' = "if") "f" "f" b b')
        g.recorded.blocks g'.recorded.blocks := by
  have shaped : Statement.Shaped (fun t t' => t = t' ∨ t' = "   ") (fun t t' => t = "c" ∧ t' = "if")
      (tests ["c"] ";").body (tests ["if"] "   ").body :=
    tests_shaped ⟨rfl, rfl⟩ (.inl rfl) (.inr rfl)
  have agree : ∀ t t', t = "c" ∧ t' = "if" → Fragment.SameIndent t t' := by
    rintro t t' ⟨rfl, rfl⟩
    simp [Fragment.SameIndent]
  exact ⟨shaped, agree, text_reworded shaped agree⟩

theorem pieces_tests (condition : String) (pieces : List (List String))
    (shown : (tests [condition] ";").prunedGraph.toOption.map
      (fun pruned => pruned.1.recorded.blocks.map BlockRecord.pieces) = some pieces) :
    ∃ g report, (tests [condition] ";").prunedGraph = .ok (g, report) ∧
      Render.graphText g = .ok g.recorded.text ∧ g.recorded.blocks.map (·.pieces) = pieces := by
  obtain ⟨g, report, run, -, views⟩ := (tests [condition] ";").prunedGraph_views
  rw [run] at shown
  exact ⟨g, report, run, views.text, Option.some.inj shown⟩

/-- The token of three spaces is taken for the indent, and the placeholder stands inside the
condition. -/
theorem placeholder_in_condition :
    Statement.Shaped (fun _ _ => True) (fun _ _ => True) (tests ["c"] ";").body
      (tests ["   "] ";").body ∧
    ∃ g g' report report', (tests ["c"] ";").prunedGraph = .ok (g, report) ∧
      (tests ["   "] ";").prunedGraph = .ok (g', report') ∧
      Render.graphText g = .ok g.recorded.text ∧ Render.graphText g' = .ok g'.recorded.text ∧
      g.recorded.blocks.map (·.pieces) =
        [[], ["    ", "if", "( ", "c ", ") ", Render.placeholder, "    ", "x ", "; ", "\n"], []] ∧
      g'.recorded.blocks.map (·.pieces) =
        [[], ["    ", "if", "( ", Render.placeholder, "    ", ") ", "    ", "x ", "; ", "\n"], []] ∧
      ¬ List.Forall₂ (fun b b' => ∃ s : Sketch,
          s.Covers (fun _ _ => True) (fun _ _ => True) "f" "f" b b')
        g.recorded.blocks g'.recorded.blocks := by
  refine ⟨tests_shaped trivial trivial trivial, ?_⟩
  obtain ⟨g, report, run, text, pieces⟩ := pieces_tests "c"
    [[], ["    ", "if", "( ", "c ", ") ", Render.placeholder, "    ", "x ", "; ", "\n"], []]
    (by decide +kernel)
  obtain ⟨g', report', run', text', pieces'⟩ := pieces_tests "   "
    [[], ["    ", "if", "( ", Render.placeholder, "    ", ") ", "    ", "x ", "; ", "\n"], []]
    (by decide +kernel)
  refine ⟨g, g', report, report', run, run', text, text', pieces, pieces', fun covered => ?_⟩
  -- The placeholders of the second block do not stand in the same places.
  have placed : (g.recorded.blocks.map (·.pieces)).map (·.map (· == Render.placeholder)) =
      (g'.recorded.blocks.map (·.pieces)).map (·.map (· == Render.placeholder)) := by
    rw [List.map_map, List.map_map]
    refine map_eq_of_forall₂ covered fun b b' covers => ?_
    obtain ⟨o, covers⟩ := covers
    exact covers.placeholders
  rw [pieces, pieces'] at placed
  exact absurd placed (by decide)

end SourceFunction

end Flowgraph
