import Flowgraph.Proofs.Columns
import Flowgraph.Proofs.Wording

/-!
# What can be reached is shown

Every part of a function that control can come to stands in a block of its pruned graph, in one piece.
In the text it stands in one piece, too: a placeholder is printed in front of an indent, and only a
condition can hold a token that looks like one while a placeholder is due.
-/

namespace Flowgraph

open Render

/-! ## Where control comes -/

namespace Statement

variable {s t : Statement} {location : Option Location}

/-- Control can come to a statement inside of another one: no statement in front of it, in any of the
sequences around it, always returns. -/
inductive Reaches : Statement → Statement → Prop where
  | here (s : Statement) : Reaches s s
  | sequence {s t : Statement} {before : List Statement} (after : List Statement)
      (location : Option Location) (passes : ∀ r ∈ before, ¬ r.AlwaysReturns) (inside : Reaches s t) :
      Reaches (.sequence (before ++ s :: after) location) t
  | thenArm {s t : Statement} (condition : List String) (alternate : Option Statement)
      (location : Option Location) (inside : Reaches s t) :
      Reaches (.branch condition s alternate location) t
  | elseArm {s t : Statement} (condition : List String) (consequent : Statement)
      (location : Option Location) (inside : Reaches s t) :
      Reaches (.branch condition consequent (some s) location) t
  | whileLoop {s t : Statement} (condition : List String) (location : Option Location)
      (inside : Reaches s t) : Reaches (.whileLoop condition s location) t
  | forLoop {s t : Statement} (init : Option (List String)) (condition : List String)
      (update : Option (List String)) (location : Option Location) (inside : Reaches s t) :
      Reaches (.forLoop init condition update s location) t

theorem parts_subset_sequence {before after : List Statement}
    (passes : ∀ r ∈ before, ¬ r.AlwaysReturns) :
    s.parts ⊆ (sequence (before ++ s :: after) location).parts := by
  induction before with
  | nil =>
    rw [List.nil_append, parts_cons]
    exact List.subset_append_left _ _
  | cons r before ih =>
    have goesOn : r.returns = false := by
      rw [← Bool.not_eq_true, returns_iff]
      exact passes r List.mem_cons_self
    rw [List.cons_append, parts_cons, goesOn]
    exact List.subset_append_of_subset_right _
      (ih fun r member => passes r (List.mem_cons_of_mem _ member))

/-- The parts of a statement that control comes to are among those of the statement around it. -/
theorem Reaches.parts_subset (reaches : Reaches s t) : t.parts ⊆ s.parts := by
  induction reaches with
  | here => exact List.Subset.refl _
  | sequence after location passes _ ih =>
    exact List.Subset.trans ih (parts_subset_sequence passes)
  | thenArm condition alternate location _ ih =>
    rw [parts_branch]
    exact List.subset_cons_of_subset _ (List.subset_append_of_subset_left _ ih)
  | elseArm condition consequent location _ ih =>
    rw [parts_branch]
    exact List.subset_cons_of_subset _ (List.subset_append_of_subset_right _ ih)
  | whileLoop condition location _ ih =>
    rw [Statement.parts]
    exact List.subset_cons_of_subset _ ih
  | forLoop init condition update location _ ih =>
    intro p member
    simp [Statement.parts, ih member]

end Statement

/-! ## From fragment to fragment -/

namespace Render

variable {hasThen : Bool} {lines rest : List String} {p : Part}

/-- What is printed for one fragment: itself, and in front of it a placeholder, but only if one is due
and the fragment looks like the indent.  Only an `if` makes one due. -/
theorem pieces_step (hasThen due noted : Bool) (line : String) (rest : List String) :
    ∃ before due' noted', (layout hasThen due noted (line :: rest)).pieces =
        before ++ line :: (layout hasThen due' noted' rest).pieces ∧
      (line ≠ Fragment.indent → before = []) ∧
      (due = false → line ≠ "if" → before = [] ∧ due' = false) := by
  refine ⟨_, _, _, rfl, fun other => ?_, fun settled other => ?_⟩
  · simp [other]
  · simp [settled, other]

/-- Fragments without an indent among them are printed in a row, whatever is due. -/
theorem pieces_row (due noted : Bool) (flat : Fragment.indent ∉ lines) : ∃ due' noted',
    (layout hasThen due noted (lines ++ rest)).pieces =
      lines ++ (layout hasThen due' noted' rest).pieces := by
  induction lines generalizing due noted with
  | nil => exact ⟨due, noted, rfl⟩
  | cons line lines ih =>
    obtain ⟨other, flat⟩ := List.ne_and_not_mem_of_not_mem_cons flat
    obtain ⟨before, due', noted', first, row, -⟩ :=
      pieces_step hasThen due noted line (lines ++ rest)
    obtain ⟨due'', noted'', later⟩ := ih due' noted' flat
    refine ⟨due'', noted'', ?_⟩
    rw [List.cons_append, first, row (Ne.symm other), later]
    rfl

/-- Where no placeholder is due, fragments without an `if` among them are printed in a row. -/
theorem pieces_settled (noted : Bool) (plain : "if" ∉ lines) : ∃ noted',
    (layout hasThen false noted (lines ++ rest)).pieces =
      lines ++ (layout hasThen false noted' rest).pieces := by
  induction lines generalizing noted with
  | nil => exact ⟨noted, rfl⟩
  | cons line lines ih =>
    obtain ⟨other, plain⟩ := List.ne_and_not_mem_of_not_mem_cons plain
    obtain ⟨before, due', noted', first, -, row⟩ :=
      pieces_step hasThen false noted line (lines ++ rest)
    -- Nothing becomes due, so the same holds of the rest.
    obtain ⟨rfl, rfl⟩ := row rfl (Ne.symm other)
    obtain ⟨noted'', later⟩ := ih noted' plain
    refine ⟨noted'', ?_⟩
    rw [List.cons_append, first, later]
    rfl

/-- Whatever stands in front, the rest is printed behind it. -/
theorem pieces_append (due noted : Bool) (lines : List String) : ∃ before due' noted',
    (layout hasThen due noted (lines ++ rest)).pieces =
      before ++ (layout hasThen due' noted' rest).pieces := by
  induction lines generalizing due noted with
  | nil => exact ⟨[], due, noted, rfl⟩
  | cons line lines ih =>
    obtain ⟨before, due', noted', first, -⟩ := pieces_step hasThen due noted line (lines ++ rest)
    obtain ⟨between, due'', noted'', later⟩ := ih due' noted'
    refine ⟨before ++ line :: between, due'', noted'', ?_⟩
    rw [List.cons_append, first, later, List.append_assoc, List.cons_append]

theorem if_not_mem_ofTokens (tokens : List String) : "if" ∉ Fragment.ofTokens tokens := by
  intro member
  have keyword := isKeyword_ofTokens member
  exact absurd keyword (by decide)

/-- The fragments of a part are printed in a row, unless the condition of an `if` holds one that
looks like the indent. -/
theorem pieces_part (due noted : Bool) (clear : p.Clear) : ∃ before due' noted',
    (layout hasThen due noted (p.fragments ++ rest)).pieces =
      before ++ (p.fragments ++ (layout hasThen due' noted' rest).pieces) := by
  -- The indent in front takes the placeholder, so nothing is due behind it until an `if` comes.
  have settled : ∀ {lines}, p.fragments = Fragment.indent :: lines → "if" ∉ lines →
      ∃ before due' noted', (layout hasThen due noted (p.fragments ++ rest)).pieces =
        before ++ (p.fragments ++ (layout hasThen due' noted' rest).pieces) := by
    intro lines eq plain
    obtain ⟨noted', later⟩ := @pieces_settled hasThen lines rest noted plain
    refine ⟨if due then [placeholder] else [], false, noted', ?_⟩
    rw [eq, List.cons_append, pieces_indent, later]
    rfl
  cases p with
  | branch condition consequent alternate =>
    -- Behind the keyword a placeholder may be due, but no indent lets it in.
    have flat : Fragment.indent ∉ "if" :: inParens condition := by
      have keyword : Fragment.indent ≠ "if" := by decide
      simp [keyword, indent_not_mem_inParens clear]
    obtain ⟨due', noted', later⟩ := @pieces_row hasThen _ rest false noted flat
    refine ⟨if due then [placeholder] else [], due', noted', ?_⟩
    rw [Part.fragments, ifHeader_eq, List.cons_append, pieces_indent, later]
    rfl
  | simple tokens | ret tokens | clause tokens =>
    exact settled rfl (by simp [if_not_mem_ofTokens])
  | whileHeader condition | forHeader condition =>
    exact settled rfl (by simp [if_not_mem_ofTokens])

/-- A part of a block is printed in one piece. -/
theorem body_shows (note : Note) (before : List String) (clear : p.Clear) : ∃ above below,
    body note (before ++ (p.fragments ++ rest)) = above ++ String.join p.fragments ++ below := by
  obtain ⟨first, due, noted, front⟩ :=
    @pieces_append note.isArms (p.fragments ++ rest) false false before
  obtain ⟨second, due', noted', row⟩ := @pieces_part note.isArms rest p due noted clear
  obtain ⟨margin, eq⟩ : ∃ margin, body note (before ++ (p.fragments ++ rest)) =
      String.join (layout note.isArms false false (before ++ (p.fragments ++ rest))).pieces ++
        note.text margin := ⟨_, rfl⟩
  refine ⟨String.join (first ++ second), String.join (layout note.isArms due' noted' rest).pieces ++
    note.text margin, ?_⟩
  rw [eq, front, row]
  simp only [String.join_append, String.append_assoc]

end Render

/-! ## Functions -/

/-- The fragments of a part stand in one piece in a block.  They stand so in the text, too, unless one
of a condition looks like the indent. -/
structure Part.Stands (p : Part) (record : GraphRecord) (text : String) : Prop where
  listed : ∃ b ∈ record.blocks, p.fragments <:+: b.lines
  printed : p.Clear → ∃ above below, text = above ++ String.join p.fragments ++ below

namespace Graph

variable {g₀ g : Graph} {parts : List Part} {C : Nat → List Part} {p : Part}

/-- Every part that the blocks of a graph hold is shown. -/
theorem Stocked.stands (stocked : Stocked g₀ g parts C) (canonical : g.Canonical)
    (member : p ∈ parts) : p.Stands g.recorded g.recorded.text := by
  obtain ⟨h, listed, held⟩ := List.mem_flatMap.1 (stocked.all.mem_iff.2 member)
  obtain ⟨x, live, body⟩ := canonical.tidy.live_of_mem_roll listed
  obtain ⟨before, after, split⟩ := List.append_of_mem held
  have lines : x.lines = fragmentsOf before ++ (p.fragments ++ fragmentsOf after) := by
    have all : x.lines = fragmentsOf (C h) := stocked.lines h x.core live.core body
    rw [all, split, fragmentsOf_append]
    rfl
  constructor
  · have shown : h ∈ g.shown := canonical.mem_shown.2 ⟨x, live⟩
    refine ⟨g.recordOf h, List.mem_map.2 ⟨h, shown, rfl⟩, fragmentsOf before, fragmentsOf after, ?_⟩
    have own : (g.recordOf h).lines = x.lines := by rw [recordOf, live.filed]
    rw [own, lines, List.append_assoc]
  · intro clear
    obtain ⟨below, text⟩ := canonical.text_at live body
    obtain ⟨front, behind, printed⟩ := @body_shows (fragmentsOf after) p (g.note x)
      (fragmentsOf before) clear
    refine ⟨g.textAbove h ++ front, behind ++ below, ?_⟩
    rw [text, lines, printed]
    simp only [String.append_assoc]

end Graph

namespace SourceFunction

open Flowgraph.Graph

/-- Every part of a function that control can come to is shown. -/
theorem parts_stand (f : SourceFunction) : ∃ g report record text,
    f.prunedGraph = .ok (g, report) ∧ g.record = .ok record ∧ graphText g = .ok text ∧
      ∀ p ∈ f.body.parts, p.Stands record text := by
  obtain ⟨g₀, live, g, report, draws, reached, run, pruned⟩ := f.prunedGraph_run
  have canonical := pruned.canonical draws reached
  obtain ⟨-, -, -, phase⟩ := pruned.signature draws
  obtain ⟨C, stocked⟩ := pruned.stocked draws reached
  exact ⟨g, report, _, _, run, canonical.record_eq, canonical.graphText_eq phase,
    fun p member => stocked.stands canonical member⟩

end SourceFunction

end Flowgraph
