import Flowgraph.Proofs.Bodies
import Flowgraph.Proofs.Views
import Mathlib.Data.List.DropRight

/-!
# The note on the arms lines up

The note on the arms of an `if` takes two lines.  The first one goes on behind the header of the
`if`; the second one is a line of its own, moved to the right by as much as the header takes.  So
both stand in the same column if the header begins a line and goes on for one line only.  It begins
a line because every part in front of it closes its own, also an `if` that lost its arms.
-/

namespace Flowgraph

open Render

/-! ## Columns -/

namespace Text

variable {s t : String}

/-- How far the end of a text is from the start of its last line, in code units. -/
def column (s : String) : Nat := unitsOf (s.toList.rtakeWhile (· ≠ '\n'))

/-- The text ends with a line feed. -/
def ClosesLine (s : String) : Prop := ∃ r, s = r ++ "\n"

/-- A text without a line feed moves the end of the line on. -/
theorem column_append (flat : '\n' ∉ t.toList) : column (s ++ t) = column s + units t := by
  have passes : ∀ c ∈ t.toList.reverse, decide (c ≠ '\n') = true := by
    intro c member
    refine decide_eq_true fun same => flat ?_
    rwa [same, List.mem_reverse] at member
  rw [column, List.rtakeWhile, String.toList_append, List.reverse_append,
    List.takeWhile_append_of_pos passes, List.reverse_append, List.reverse_reverse, unitsOf_append]
  rfl

theorem ClosesLine.column (closes : ClosesLine s) : column s = 0 := by
  obtain ⟨r, rfl⟩ := closes
  rw [Text.column, String.toList_append]
  exact congrArg unitsOf (List.rtakeWhile_concat_neg _ _ _ (by decide))

theorem ClosesLine.append (closes : ClosesLine t) : ClosesLine (s ++ t) := by
  obtain ⟨r, rfl⟩ := closes
  exact ⟨s ++ r, String.append_assoc.symm⟩

theorem units_join (l : List String) : units (String.join l) = (l.map units).sum := by
  induction l with
  | nil => rfl
  | cons s l ih => rw [String.join_cons, units_append, ih, List.map_cons, List.sum_cons]

end Text

open Text

/-! ## The lines of a block -/

theorem closesLine_join {l : List String} {last : String} (closes : ClosesLine last) :
    ClosesLine (String.join (l ++ [last])) := by
  rw [String.join_append, String.join_cons, String.join_nil, String.append_empty]
  exact closes.append

/-- What is printed of a part other than the header of a loop closes its line. -/
theorem Part.closesLine (p : Part) (plain : p.isLoop = false) :
    ClosesLine (String.join p.shown) := by
  have feed : ClosesLine "\n" := ⟨"", rfl⟩
  cases p with
  | simple tokens | ret tokens =>
    rw [shown, isBranch, if_neg Bool.false_ne_true, List.append_nil]
    exact closesLine_join feed
  | clause tokens =>
    have eq : Fragment.clause tokens = (Fragment.indent :: Fragment.ofTokens tokens ++ ["; "]) ++
        ["\n"] := by
      simp [Fragment.clause]
    rw [shown, isBranch, if_neg Bool.false_ne_true, List.append_nil, fragments, eq]
    exact closesLine_join feed
  | branch condition a b =>
    rw [shown, isBranch, if_pos rfl]
    exact closesLine_join ⟨"\x7b \x7d", rfl⟩
  | whileHeader | forHeader => cases plain

theorem closesLine_parts {passed : List Part} (plain : ∀ p ∈ passed, p.isLoop = false) {s : String}
    (closes : ClosesLine s) : ClosesLine (s ++ String.join (passed.flatMap Part.shown)) := by
  -- The last part closes the last line, whatever stands in front of it.
  cases passed using List.reverseRecOn with
  | nil => rwa [List.flatMap_nil, String.join_nil, String.append_empty]
  | append_singleton passed p =>
    rw [List.flatMap_append, String.join_append, List.flatMap_singleton]
    exact ((p.closesLine (plain p (by simp))).append).append

/-- A header whose condition has no line feed is all on one line. -/
theorem ifHeader_flat {condition : List String} (flat : ∀ t ∈ condition, '\n' ∉ t.toList) :
    '\n' ∉ (String.join (Fragment.ifHeader condition)).toList := by
  rw [String.toList_join]
  intro member
  obtain ⟨line, inside, feed⟩ := List.mem_flatMap.1 member
  simp only [Fragment.ifHeader, Fragment.ofTokens, List.mem_append, List.mem_cons, List.mem_map,
    List.not_mem_nil, or_false] at inside
  obtain ((rfl | rfl | rfl) | ⟨t, inside, rfl⟩) | rfl := inside
  · exact absurd feed (by decide)
  · exact absurd feed (by decide)
  · exact absurd feed (by decide)
  · rw [String.toList_append, List.mem_append] at feed
    exact feed.elim (flat t inside) (by decide)
  · exact absurd feed (by decide)

theorem units_ifHeader (condition : List String) :
    units (String.join (Fragment.ifHeader condition)) =
      units Fragment.indent + reach (Fragment.ifHeader condition) := by
  rw [units_join]
  rfl

theorem units_spaces (n : Nat) : units (spaces n) = n := by
  have list : ∀ n, unitsOf (List.replicate n ' ') = n := by
    intro n
    induction n with
    | zero => rfl
    | succ n ih =>
      rw [List.replicate_succ, unitsOf_cons, ih, Nat.add_comm]
      rfl
  rw [spaces, units, String.toList_ofList, list]

theorem spaces_flat (n : Nat) : '\n' ∉ (spaces n).toList := by
  rw [spaces, String.toList_ofList]
  intro member
  exact absurd (List.eq_of_mem_replicate member) (by decide)

/-- The keyword of the last `if` tells where its condition begins. -/
theorem ifHeader_inj {before before' : List String} {condition condition' : List String}
    (same : before ++ Fragment.ifHeader condition = before' ++ Fragment.ifHeader condition') :
    condition = condition' := by
  have keyword : ∀ condition, "if" ∉ inParens condition := by
    intro condition member
    have plain := inParens_plain _ member
    exact absurd plain (by decide)
  rw [ifHeader_eq, ifHeader_eq, List.append_cons, List.append_cons before'] at same
  have parens := (behind_last_inj (keyword condition) (keyword condition') same).2
  have tokens : Fragment.ofTokens condition = Fragment.ofTokens condition' :=
    List.append_cancel_right (List.cons.inj parens).2
  exact List.map_injective_iff.2 (fun s t eq => (String.append_left_inj " ").1 eq) tokens

/-! ## The text of a graph -/

namespace Graph

variable {g : Graph} {h t : Nat} {x : Block}

/-- The text of a graph up to the body of block `h`. -/
def textAbove (g : Graph) (h : Nat) : String :=
  g.recorded.signature (g.recordOf entry) ++
    String.join ((g.roll.takeWhile (· ≠ h)).map fun k => (g.recordOf k).stanza) ++
    "@" ++ g.label h ++ " \x7b\n"

/-- The text of a graph up to the note on the arms of block `h`. -/
def upToThen (g : Graph) (h : Nat) (x : Block) : String :=
  g.textAbove h ++ String.join (layout true false false x.lines).pieces ++ Fragment.indent

/-- The text of a graph up to the second line of this note. -/
def upToElse (g : Graph) (h : Nat) (x : Block) (t : Nat) : String :=
  g.upToThen h x ++ "# then: " ++ g.label t ++ "\n" ++
    spaces (units Fragment.indent + (layout true false false x.lines).width +
      units Fragment.indent)

namespace Canonical

variable (canonical : g.Canonical)

include canonical

theorem text_at (live : g.Live h x) (body : x.kind = .body) :
    ∃ below, g.recorded.text = g.textAbove h ++ Render.body (g.note x) x.lines ++ below := by
  obtain ⟨before, after, roll, first⟩ :=
    List.eq_append_cons_of_mem (canonical.tidy.mem_roll live.core body)
  have passes : ∀ k ∈ before, decide (k ≠ h) = true := fun k member =>
    decide_eq_true fun same => first (same ▸ member)
  have above : g.roll.takeWhile (· ≠ h) = before := by
    rw [roll, List.takeWhile_append_of_pos passes, List.takeWhile_cons_of_neg (by simp),
      List.append_nil]
  have stanza : (g.recordOf h).stanza = "@" ++ g.label h ++ " \x7b\n" ++
      Render.body (g.note x) x.lines ++ ("\x7d\n" ++ (g.recordOf h).neighbours) := by
    simp only [BlockRecord.stanza, BlockRecord.note, recordOf, live.filed, String.append_assoc]
    rfl
  refine ⟨"\x7d\n" ++ (g.recordOf h).neighbours ++
    String.join (after.map fun k => (g.recordOf k).stanza) ++ (g.recordOf exit).stanza, ?_⟩
  rw [textAbove, above]
  simp [GraphRecord.text, recorded, shown, roll, stanza, String.append_assoc, Function.comp_def]

end Canonical

/-- In the text of the graph the two lines of the note on the arms of block `h` stand in the same
column, unless the condition of the `if` goes on for more than one line. -/
structure LinesUp (g : Graph) (text : String) (h : Nat) (x : Block) (t : Nat) : Prop where
  printed : ∃ e below, x.elseTarget = some e ∧
    text = g.upToElse h x t ++ "# else: " ++ g.label e ++ "\n" ++ below
  header : ∃ before condition, x.lines = before ++ Fragment.ifHeader condition
  aligned : ∀ before condition, x.lines = before ++ Fragment.ifHeader condition →
    (∀ token ∈ condition, '\n' ∉ token.toList) →
    column (g.upToThen h x) = column (g.upToElse h x t)

theorem Tidy.body_of_then (tidy : g.Tidy) (live : g.Live h x) (isThen : x.thenTarget = some t) :
    x.kind = .body := by
  obtain ⟨e, ends⟩ | ⟨-, core⟩ := tidy.ends_live live
  · cases ends with
    | goes _ noThen => cases noThen.symm.trans isThen
    | loops _ _ noThen => cases noThen.symm.trans isThen
    | branches successors isThen isElse noExit =>
      have ends : x.core.Ends _ := .branches successors isThen isElse noExit
      have body : x.core.kind = .body := tidy.body_of_decides live.core ends rfl
      exact body
  · have noThen : x.thenTarget = none := congrArg Block.thenTarget core
    cases noThen.symm.trans isThen

/-- A block with targets of an `if` ends with its header, and what is in front of it passes on. -/
theorem Stocked.arms {g₀ : Graph} {parts : List Part} {C : Nat → List Part}
    (stocked : Stocked g₀ g parts C) (canonical : g.Canonical) (clear : ∀ p ∈ parts, p.Clear)
    (live : g.Live h x) (isThen : x.thenTarget = some t) :
    ∃ passed condition e, x.elseTarget = some e ∧
      x.lines = fragmentsOf passed ++ Fragment.ifHeader condition ∧
      ∀ p ∈ passed, p.isLoop = false ∧ p.Clear := by
  have body := canonical.tidy.body_of_then live isThen
  have lines : x.lines = fragmentsOf (C h) := stocked.lines h x.core live.core body
  have held := stocked.mem_of_live canonical live body
  have prints := stocked.prints canonical clear live body
  generalize C h = parts' at lines held prints
  cases prints with
  | plain _ noThen => cases noThen.symm.trans isThen
  | loopEnd _ _ notes =>
    obtain ⟨v, z, -, noThen, -⟩ := notes
    cases noThen.symm.trans isThen
  | @arms passed condition a b blank notes =>
    obtain ⟨t', e, -, isElse, -⟩ := notes
    refine ⟨passed, condition, e, isElse, ?_, fun p inside => ⟨(blank p inside).1, ?_⟩⟩
    · rw [lines, fragmentsOf_append, fragmentsOf_singleton]
      rfl
    · exact clear p (held p (List.mem_append_left _ inside))

theorem Canonical.linesUp (canonical : g.Canonical) (live : g.Live h x)
    (isThen : x.thenTarget = some t) {e : Nat} (isElse : x.elseTarget = some e)
    {passed : List Part} {condition : List String}
    (lines : x.lines = fragmentsOf passed ++ Fragment.ifHeader condition)
    (plain : ∀ p ∈ passed, p.isLoop = false ∧ p.Clear) : g.LinesUp g.recorded.text h x t := by
  have laid := layout_arms plain condition
  rw [← lines] at laid
  constructor
  · obtain ⟨below, text⟩ := canonical.text_at live (canonical.tidy.body_of_then live isThen)
    refine ⟨e, below, isElse, ?_⟩
    rw [text, upToElse, upToThen, note, isThen, isElse]
    simp [Note.ofTargets, Render.body, Note.isArms, Note.text, String.append_assoc]
  · exact ⟨_, condition, lines⟩
  · intro before condition' lines' flat
    obtain rfl := ifHeader_inj (lines'.symm.trans lines)
    have brace : ClosesLine " \x7b\n" := ⟨" \x7b", rfl⟩
    have closes : ClosesLine (g.textAbove h) := brace.append
    have above := closesLine_parts (fun p inside => (plain p inside).1) closes
    have indent : '\n' ∉ Fragment.indent.toList := by decide
    -- The header stands on a line of its own, and so do the spaces of the second line.
    have first : column (g.upToThen h x) = units Fragment.indent +
        reach (Fragment.ifHeader condition') + units Fragment.indent := by
      rw [upToThen, laid, String.join_append, ← String.append_assoc, column_append indent,
        column_append (ifHeader_flat flat), above.column, units_ifHeader, Nat.zero_add]
    have second : column (g.upToElse h x t) = units Fragment.indent +
        reach (Fragment.ifHeader condition') + units Fragment.indent := by
      have feed : ClosesLine (g.upToThen h x ++ "# then: " ++ g.label t ++ "\n") := ⟨_, rfl⟩
      rw [upToElse, laid, column_append (spaces_flat _), feed.column, units_spaces, Nat.zero_add]
    rw [first, second]

end Graph

namespace SourceFunction

open Flowgraph.Graph

/-- In the text of a pruned graph the two lines of the note on the arms of an `if` stand in the same
column, if no token is printed like the indent and the condition is all on one line. -/
theorem arms_line_up (f : SourceFunction) (clear : "   " ∉ f.body.tokens) :
    ∃ g report text, f.prunedGraph = .ok (g, report) ∧ graphText g = .ok text ∧
      ∀ h x t, g.Live h x → x.thenTarget = some t → g.LinesUp text h x t := by
  obtain ⟨g₀, live, g, report, draws, reached, run, pruned⟩ := f.prunedGraph_run
  have canonical := pruned.canonical draws reached
  obtain ⟨-, -, -, phase⟩ := pruned.signature draws
  obtain ⟨C, stocked⟩ := pruned.stocked draws reached
  refine ⟨g, report, _, run, canonical.graphText_eq phase, fun h x t live isThen => ?_⟩
  obtain ⟨passed, condition, e, isElse, lines, plain⟩ :=
    stocked.arms canonical (f.body.clear_parts clear) live isThen
  exact canonical.linesUp live isThen isElse lines plain

/-- An `if` with an arm, behind a token of two lines and an `if` whose arms are empty. -/
def templated : SourceFunction where
  name := "templated"
  returnType := ["void"]
  parameters := ["string", "s"]
  body := .sequence [
    .simple ["s", "=", "`a\nb`", ";"] none,
    .branch ["s"] (.sequence [] none) none none,
    .branch ["s", "==", "'😀'"] (.ret ["return", ";"] none)
      (some (.simple ["f", "(", ")", ";"] none)) none] none
  location := none

theorem arms_line_up_templated : "   " ∉ templated.body.tokens ∧
    ∃ g report text, templated.prunedGraph = .ok (g, report) ∧ graphText g = .ok text ∧
      ∀ h x t, g.Live h x → x.thenTarget = some t → g.LinesUp text h x t := by
  have clear : "   " ∉ templated.body.tokens := by decide
  exact ⟨clear, arms_line_up templated clear⟩

end SourceFunction

end Flowgraph
