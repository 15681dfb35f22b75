import Flowgraph.Proofs.Contents
import Flowgraph.Proofs.LoopForms
import Flowgraph.Proofs.Notes
import Mathlib.Algebra.GroupWithZero.Nat

/-!
# Where placeholders and notes stand

The fragments of a block are printed in one go, without a look at the parts that they were written
for.  Still a placeholder stands behind every `if` whose arms are gone, at the end of its header, and
the note belongs to the last header of the block.  This needs two things.  All parts of a pruned
block pass control on but the last, so that only the last `if` has arms.  And no token of a condition
may be printed like the indent: then the first indent behind a header opens the next part.
-/

namespace Flowgraph

open Render

namespace Render

/-- The same body with pieces in front. -/
def Body.after (before : List String) (b : Body) : Body := { b with pieces := before ++ b.pieces }

variable {hasThen due noted : Bool} {lines rest before more condition : List String} {b : Body}
  {part : Part} {passed : List Part}

@[simp] theorem Body.after_after : (b.after more).after before = b.after (before ++ more) := by
  simp [Body.after]

/-! ## From fragment to fragment -/

/-- Fragments that are neither keywords nor the indent change nothing. -/
theorem layout_append_plain (keywords : ∀ line ∈ lines, Fragment.isKeyword line = false)
    (indents : due = true → Fragment.indent ∉ lines) :
    layout hasThen due noted (lines ++ rest) =
      { pieces := lines ++ (layout hasThen due noted rest).pieces
        width := (if noted then (lines.map Text.units).sum else 0) +
          (layout hasThen due noted rest).width } := by
  induction lines with
  | nil => cases noted <;> simp
  | cons line lines ih =>
    have plain := keywords line List.mem_cons_self
    have other : (line == "if") = false := by simp_all [Fragment.isKeyword]
    have settled : (due && line == Fragment.indent) = false := by
      cases due with
      | false => rfl
      | true =>
        have ne : line ≠ Fragment.indent := fun eq => indents rfl (by simp [eq])
        simpa using ne
    have later := ih (fun l member => keywords l (List.mem_cons_of_mem _ member))
      fun pending member => indents pending (List.mem_cons_of_mem _ member)
    cases noted <;> simp [layout, plain, other, settled, later, Nat.add_assoc]

/-- A placeholder that is still to come stands before the next part, or at the end. -/
theorem layout_due (opens : rest = [] ∨ ∃ lines, rest = Fragment.indent :: lines) :
    layout hasThen due noted rest =
      (layout hasThen false noted rest).after (if due then [placeholder] else []) := by
  have indent : Fragment.isKeyword Fragment.indent = false := by decide
  have indent' : (Fragment.indent == "if") = false := by decide
  obtain rfl | ⟨lines, rfl⟩ := opens
  · cases due <;> rfl
  · cases due <;> simp [layout, indent, indent', Body.after]

/-! ## From part to part -/

/-- No token but the one that consists of three spaces is printed like the indent. -/
theorem indent_not_mem_ofTokens {tokens : List String} (clear : "   " ∉ tokens) :
    Fragment.indent ∉ Fragment.ofTokens tokens := by
  intro member
  obtain ⟨token, inside, eq⟩ := List.mem_map.1 member
  have indent : Fragment.indent = "   " ++ " " := by decide
  rw [indent, String.append_left_inj] at eq
  exact clear (eq ▸ inside)

/-- A condition with the parentheses around it. -/
def inParens (condition : List String) : List String :=
  "( " :: (Fragment.ofTokens condition ++ [") "])

theorem ifHeader_eq :
    Fragment.ifHeader condition = Fragment.indent :: "if" :: inParens condition := rfl

theorem inParens_plain : ∀ line ∈ inParens condition, Fragment.isKeyword line = false := by
  intro line member
  simp only [inParens, List.mem_cons, List.mem_append, List.not_mem_nil, or_false] at member
  obtain rfl | member | rfl := member
  · decide
  · exact isKeyword_ofTokens member
  · decide

theorem indent_not_mem_inParens (clear : "   " ∉ condition) :
    Fragment.indent ∉ inParens condition := by
  have inner := indent_not_mem_ofTokens clear
  have first : Fragment.indent ≠ "( " := by decide
  have last : Fragment.indent ≠ ") " := by decide
  simp [inParens, inner, first, last]

/-- The keyword of an `if` is noted if it is the last one in a block with targets of an `if`.
Otherwise a placeholder is to come. -/
theorem layout_if (noted : Bool) (settled : (!rest.any Fragment.isKeyword && hasThen) = noted) :
    layout hasThen false false ("if" :: rest) =
      { pieces := "if" :: (layout hasThen (!noted) noted rest).pieces
        width := (if noted then Text.units "if" else 0) +
          (layout hasThen (!noted) noted rest).width } := by
  have keyword : Fragment.isKeyword "if" = true := by decide
  have other : ("if" == Fragment.indent) = false := by decide
  subst settled
  cases later : rest.any Fragment.isKeyword <;> cases hasThen <;>
    simp [layout, keyword, other, later]

theorem layout_indent : layout hasThen false false (Fragment.indent :: rest) =
    (layout hasThen false false rest).after [Fragment.indent] := by
  have keyword : Fragment.isKeyword Fragment.indent = false := by decide
  have other : (Fragment.indent == "if") = false := by decide
  simp [layout, keyword, other, Body.after]

/-- Behind the header of an `if` whose arms are gone, a placeholder is to come. -/
theorem layout_ifHeader (clear : "   " ∉ condition)
    (later : hasThen = true → rest.any Fragment.isKeyword = true) :
    layout hasThen false false (Fragment.ifHeader condition ++ rest) =
      (layout hasThen true false rest).after (Fragment.ifHeader condition) := by
  -- The keyword of the header is not the last one, or the block has no targets of an `if`.
  have unnoted : (!(inParens condition ++ rest).any Fragment.isKeyword && hasThen) = false := by
    cases hasThen with
    | false => simp
    | true => simp [later rfl]
  rw [ifHeader_eq, List.cons_append, List.cons_append, layout_indent, layout_if false unnoted,
    layout_append_plain inParens_plain fun _ => indent_not_mem_inParens clear]
  simp [Body.after]

/-- How far a header reaches, without the indent in front. -/
def reach (header : List String) : Nat := (header.tail.map Text.units).sum

/-- The header of the last `if`, whose arms are noted. -/
theorem layout_ifHeader_noted : layout true false false (Fragment.ifHeader condition) =
    { pieces := Fragment.ifHeader condition, width := reach (Fragment.ifHeader condition) } := by
  have last : (!(inParens condition).any Fragment.isKeyword && true) = true := by
    simpa using inParens_plain
  have inside := @layout_append_plain true false true _ [] (@inParens_plain condition)
    fun pending => absurd pending Bool.false_ne_true
  rw [List.append_nil] at inside
  rw [ifHeader_eq, layout_indent, layout_if true last, Bool.not_true, inside]
  simp [Body.after, reach, layout]

theorem layout_plainPart (part : Part) (plain : part.isLoop = false) (other : part.isBranch = false) :
    layout hasThen false false (part.fragments ++ rest) =
      (layout hasThen false false rest).after part.fragments := by
  have keywords : ∀ line ∈ part.fragments, Fragment.isKeyword line = false := by
    have written : ∀ tokens, ∀ last : List String, (∀ line ∈ last, Fragment.isKeyword line = false) →
        ∀ line ∈ Fragment.indent :: Fragment.ofTokens tokens ++ last,
          Fragment.isKeyword line = false := by
      intro tokens last ends line member
      simp only [List.cons_append, List.mem_cons, List.mem_append] at member
      obtain rfl | member | member := member
      · decide
      · exact isKeyword_ofTokens member
      · exact ends line member
    cases part with
    | simple tokens | ret tokens => exact written tokens ["\n"] (by decide)
    | clause tokens => exact written tokens ["; ", "\n"] (by decide)
    | branch => cases other
    | whileHeader | forHeader => cases plain
  rw [layout_append_plain keywords fun pending => absurd pending Bool.false_ne_true]
  simp [Body.after]

end Render

/-- No token of a condition is printed like the indent. -/
def Part.Clear : Part → Prop
  | .branch condition _ _ => "   " ∉ condition
  | .simple _ | .ret _ | .clause _ | .whileHeader _ _ | .forHeader _ _ _ => True

/-- What is printed of a part that passes control on: behind an `if` stands a placeholder. -/
def Part.shown (p : Part) : List String := p.fragments ++ if p.isBranch then [placeholder] else []

namespace Render

variable {hasThen : Bool} {rest : List String} {passed : List Part}

theorem opens_append_parts (opens : rest = [] ∨ ∃ lines, rest = Fragment.indent :: lines) :
    fragmentsOf passed ++ rest = [] ∨
      ∃ lines, fragmentsOf passed ++ rest = Fragment.indent :: lines := by
  cases passed with
  | nil => exact opens
  | cons part passed =>
    obtain ⟨lines, eq⟩ := part.fragments_eq_cons
    exact .inr ⟨lines ++ fragmentsOf passed ++ rest, by simp [fragmentsOf, eq]⟩

/-- The parts in front of the last header are printed one after the other. -/
theorem layout_parts (plain : ∀ p ∈ passed, p.isLoop = false ∧ p.Clear)
    (opens : rest = [] ∨ ∃ lines, rest = Fragment.indent :: lines)
    (later : hasThen = true → rest.any Fragment.isKeyword = true) :
    layout hasThen false false (fragmentsOf passed ++ rest) =
      (layout hasThen false false rest).after (passed.flatMap Part.shown) := by
  induction passed with
  | nil => rfl
  | cons part passed ih =>
    obtain ⟨first, clear⟩ := plain part List.mem_cons_self
    have behind := ih fun p member => plain p (List.mem_cons_of_mem _ member)
    have later' : hasThen = true → (fragmentsOf passed ++ rest).any Fragment.isKeyword = true := by
      intro noted
      rw [List.any_append, later noted, Bool.or_true]
    have eq : fragmentsOf (part :: passed) ++ rest =
        part.fragments ++ (fragmentsOf passed ++ rest) := by
      simp [fragmentsOf]
    rw [eq, List.flatMap_cons, Part.shown]
    cases other : part.isBranch with
    | false =>
      rw [layout_plainPart part first other, behind]
      simp
    | true =>
      -- The placeholder is due behind the header, and the next part opens with an indent.
      cases part with
      | branch condition a b =>
        rw [Part.fragments, layout_ifHeader clear later', layout_due (opens_append_parts opens),
          behind]
        simp
      | simple | ret | clause | whileHeader | forHeader => cases other

/-- Parts behind which nothing is noted. -/
theorem body_nothing (plain : ∀ p ∈ passed, p.isLoop = false ∧ p.Clear) :
    body .nothing (fragmentsOf passed) = String.join (passed.flatMap Part.shown) := by
  have laid := @layout_parts false [] passed plain (.inl rfl) fun noted => by cases noted
  rw [List.append_nil] at laid
  rw [body, Note.isArms, laid]
  simp [Body.after, layout, Note.text]

/-- Parts with the header of an `if` behind them, whose arms are noted. -/
theorem layout_arms (plain : ∀ p ∈ passed, p.isLoop = false ∧ p.Clear) (condition : List String) :
    layout true false false (fragmentsOf passed ++ Fragment.ifHeader condition) =
      { pieces := passed.flatMap Part.shown ++ Fragment.ifHeader condition
        width := reach (Fragment.ifHeader condition) } := by
  have keyword : (Fragment.ifHeader condition).any Fragment.isKeyword = true := by
    simp [Fragment.ifHeader, Fragment.isKeyword]
  rw [layout_parts plain (.inr ⟨_, @ifHeader_eq condition⟩) fun _ => keyword,
    layout_ifHeader_noted]
  rfl

/-- The note on the arms of an `if` stands under its header. -/
theorem body_arms {condition : List String} {thenLabel elseLabel : String}
    (plain : ∀ p ∈ passed, p.isLoop = false ∧ p.Clear) :
    body (.arms thenLabel elseLabel) (fragmentsOf passed ++ Fragment.ifHeader condition) =
      String.join (passed.flatMap Part.shown ++ Fragment.ifHeader condition) ++
        (Note.arms thenLabel elseLabel).text (Text.units Fragment.indent +
          reach (Fragment.ifHeader condition) + Text.units Fragment.indent) := by
  rw [body, Note.isArms, layout_arms plain condition]

/-- The note on the end of a loop stands under the header of the loop. -/
theorem body_loopEnd {header : Part} {label : String} (isLoop : header.isLoop = true)
    (plain : ∀ p ∈ passed, p.isLoop = false ∧ p.Clear) :
    body (.loopEnd label) (fragmentsOf passed ++ header.fragments) =
      String.join (passed.flatMap Part.shown ++ header.fragments) ++ (Note.loopEnd label).text 0 := by
  have opensLoop : OpensLoop header.fragments := by
    cases header with
    | whileHeader condition _ => exact opensLoop_while condition
    | forHeader condition _ _ => exact opensLoop_for condition
    | simple | ret | clause | branch => cases isLoop
  have laid := @layout_parts false _ passed plain (.inr header.fragments_eq_cons)
    fun noted => by cases noted
  have own : (layout false false false header.fragments).pieces = header.fragments :=
    layout_opensLoop opensLoop
  rw [body, Note.isArms, laid, Body.after, own]
  rfl

end Render

namespace Graph

variable {g g₀ : Graph} {parts : List Part} {C : Nat → List Part} {h : Nat} {x : Block}

/-- The arms of an `if` begin where the targets of the block are, and the block is printed with the
parts `passed`, the header, and the note on the targets. -/
def NotesArms (g : Graph) (x : Block) (passed : List Part) (condition : List String) (a : Statement)
    (b : Option Statement) : Prop :=
  ∃ t e, x.thenTarget = some t ∧ x.elseTarget = some e ∧ x.loopExit = none ∧
    OpenIn a.parts (g.text t) ∧ OpenIn (Statement.orElse b).parts (g.text e) ∧
    bodyText g x = .ok (String.join (passed.flatMap Part.shown ++ Fragment.ifHeader condition) ++
      (Note.arms (g.label t) (g.label e)).text (Text.units Fragment.indent +
        reach (Fragment.ifHeader condition) + Text.units Fragment.indent))

/-- The parts inside a loop begin behind the block, and the block is printed with the parts `passed`,
the header of the loop, and the note on its end. -/
def NotesEnd (g : Graph) (x : Block) (passed : List Part) (header : Part) : Prop :=
  ∃ v z, (∀ w, w ∈ x.successors ↔ w = v ∨ w = z) ∧ x.thenTarget = none ∧ x.elseTarget = none ∧
    x.loopExit = some z ∧ OpenIn header.inside (g.text v) ∧
    bodyText g x = .ok (String.join (passed.flatMap Part.shown ++ header.fragments) ++
      (Note.loopEnd (g.label z)).text 0)

/-- How a block that holds these parts is printed. -/
inductive Prints (g : Graph) (x : Block) : List Part → Prop where
  | plain {passed : List Part} (blank : ∀ p ∈ passed, p.isLoop = false ∧ p.Blank)
      (noThen : x.thenTarget = none) (noElse : x.elseTarget = none) (noExit : x.loopExit = none)
      (text : bodyText g x = .ok (String.join (passed.flatMap Part.shown))) : Prints g x passed
  | arms {passed : List Part} {condition : List String} {a : Statement} {b : Option Statement}
      (blank : ∀ p ∈ passed, p.isLoop = false ∧ p.Blank)
      (notes : g.NotesArms x passed condition a b) : Prints g x (passed ++ [.branch condition a b])
  | loopEnd {passed : List Part} {header : Part} (blank : ∀ p ∈ passed, p.isLoop = false ∧ p.Blank)
      (isLoop : header.isLoop = true) (notes : g.NotesEnd x passed header) :
      Prints g x (passed ++ [header])

/-- An `if` with an arm that is not gone is the last part of its block, and its arms are noted. -/
theorem Prints.notesArms {before after held : List Part} {condition : List String} {a : Statement}
    {b : Option Statement} (prints : g.Prints x held)
    (eq : held = before ++ .branch condition a b :: after)
    (filled : ¬ (Part.branch condition a b).Blank) :
    after = [] ∧ g.NotesArms x before condition a b := by
  have last : ∀ {passed part}, (∀ p ∈ passed, p.isLoop = false ∧ p.Blank) →
      passed ++ [part] = before ++ .branch condition a b :: after →
      after = [] ∧ passed = before ∧ part = .branch condition a b := by
    intro passed part blank same
    -- Whatever stands behind the `if` would make it one of the parts that pass control on.
    cases after using List.reverseRecOn with
    | nil =>
      obtain ⟨rfl, last⟩ := List.append_inj' same rfl
      exact ⟨rfl, rfl, List.singleton_inj.1 last⟩
    | append_singleton after q =>
      rw [← List.cons_append, ← List.append_assoc] at same
      obtain ⟨rfl, -⟩ := List.append_inj' same rfl
      exact absurd (blank _ (by simp)).2 filled
  cases prints with
  | plain blank =>
    subst eq
    exact absurd (blank _ (by simp)).2 filled
  | arms blank notes =>
    obtain ⟨rfl, rfl, same⟩ := last blank eq
    cases same
    exact ⟨rfl, notes⟩
  | loopEnd blank isLoop =>
    obtain ⟨-, -, rfl⟩ := last blank eq
    cases isLoop

/-- The blocks of a graph hold these parts, each of them once, and are printed part by part. -/
structure Placed (g : Graph) (parts : List Part) (contents : Nat → List Part) : Prop where
  all : (g.roll.flatMap contents).Perm parts
  lines : ∀ h x, g.Live h x → x.kind = .body → x.lines = fragmentsOf (contents h)
  prints : ∀ h x, g.Live h x → x.kind = .body → g.Prints x (contents h)
  noted : ∀ h x, g.Live h x → x.kind = .body → ∀ before after condition a b,
    contents h = before ++ .branch condition a b :: after → ¬ (Part.branch condition a b).Blank →
      after = [] ∧ g.NotesArms x before condition a b

theorem Stocked.mem_of_live (stocked : Stocked g₀ g parts C) (canonical : g.Canonical)
    (live : g.Live h x) (body : x.kind = .body) : ∀ p ∈ C h, p ∈ parts := by
  intro p inside
  have listed := canonical.tidy.mem_roll live.core body
  exact stocked.all.subset (List.mem_flatMap.2 ⟨h, listed, inside⟩)

theorem Stocked.prints (stocked : Stocked g₀ g parts C) (canonical : g.Canonical)
    (clear : ∀ p ∈ parts, p.Clear) (live : g.Live h x) (body : x.kind = .body) :
    g.Prints x (C h) := by
  have clear' : ∀ p ∈ C h, p.Clear := fun p inside =>
    clear p (stocked.mem_of_live canonical live body p inside)
  have lines : x.lines = fragmentsOf (C h) := stocked.lines h x.core live.core body
  have text := canonical.bodyText_eq live
  -- The last part of the block decides which targets it has, and with them the note.
  obtain ⟨e, ends, shuts⟩ := stocked.shuts_live canonical live body
  rw [lines] at text
  generalize C h = held at clear' text shuts ⊢
  have blank : ∀ {passed : List Part}, (∀ p ∈ passed, p.Passes) →
      ∀ p ∈ passed, p.isLoop = false ∧ p.Blank := fun passes p inside =>
    ⟨(passes p inside).1, (passes p inside).2.2⟩
  have plain : ∀ {passed more : List Part}, (∀ p ∈ passed, p.Passes) →
      (∀ p ∈ passed ++ more, p.Clear) → ∀ p ∈ passed, p.isLoop = false ∧ p.Clear :=
    fun passes clear p inside => ⟨(passes p inside).1, clear p (List.mem_append_left _ inside)⟩
  cases shuts with
  | goes passes =>
    cases ends with
    | goes _ noThen noElse noExit =>
      have note : g.note x = .nothing := by simp [Graph.note, noThen, noExit, Note.ofTargets]
      refine .plain (blank passes) noThen noElse noExit ?_
      rw [text, note, body_nothing fun p inside => ⟨(passes p inside).1, clear' p inside⟩]
  | @returns passed tokens passes =>
    cases ends with
    | goes _ noThen noElse noExit =>
      have note : g.note x = .nothing := by simp [Graph.note, noThen, noExit, Note.ofTargets]
      -- A return is printed like any statement without a header.
      have all : ∀ p ∈ passed ++ [.ret tokens], p.isLoop = false ∧ p.Blank := by
        intro p inside
        obtain inside | inside := List.mem_append.1 inside
        · exact blank passes p inside
        · obtain rfl := List.mem_singleton.1 inside
          exact ⟨rfl, trivial⟩
      refine .plain all noThen noElse noExit ?_
      rw [text, note, body_nothing fun p inside => ⟨(all p inside).1, clear' p inside⟩]
  | @branches passed condition a b v w passes opens opens' =>
    cases ends with
    | branches _ isThen isElse noExit =>
      have note : g.note x = .arms (g.label v) (g.label w) := by
        simp [Graph.note, isThen, isElse, Note.ofTargets]
      refine .arms (blank passes) ⟨v, w, isThen, isElse, noExit, opens, opens', ?_⟩
      rw [text, note, fragmentsOf_append, fragmentsOf_singleton]
      exact congrArg Except.ok (body_arms (plain passes clear'))
  | @loops passed header v z passes isLoop opens =>
    cases ends with
    | loops _ successors noThen noElse isExit =>
      have note : g.note x = .loopEnd (g.label z) := by
        simp [Graph.note, noThen, isExit, Note.ofTargets]
      refine .loopEnd (blank passes) isLoop
        ⟨v, z, successors, noThen, noElse, isExit, opens, ?_⟩
      rw [text, note, fragmentsOf_append, fragmentsOf_singleton]
      exact congrArg Except.ok (body_loopEnd isLoop (plain passes clear'))

end Graph

/-- No part of a statement is printed like the indent if no token is. -/
theorem Statement.clear_parts (s : Statement) (clear : "   " ∉ s.tokens) : ∀ p ∈ s.parts, p.Clear := by
  intro p inside
  cases p with
  | branch condition a b => exact fun member => clear (Statement.tokens_of_mem_parts inside _ member)
  | simple | ret | clause | whileHeader | forHeader => trivial

namespace SourceFunction

open Flowgraph.Graph

/-- The blocks of a pruned graph hold every part of the function that control can come to, each once,
and are printed part by part. -/
theorem bodies_placed (f : SourceFunction) (clear : "   " ∉ f.body.tokens) :
    ∃ g report contents, f.prunedGraph = .ok (g, report) ∧ g.Placed f.body.parts contents := by
  obtain ⟨g₀, live, g, report, draws, reached, run, pruned⟩ := f.prunedGraph_run
  have canonical := pruned.canonical draws reached
  obtain ⟨C, stocked⟩ := pruned.stocked draws reached
  have plain := f.body.clear_parts clear
  refine ⟨g, report, C, run, stocked.all, ?_, ?_, ?_⟩
  · exact fun h x live body => stocked.lines h x.core live.core body
  · exact fun h x => stocked.prints canonical plain
  · exact fun h x live body before after condition a b =>
      (stocked.prints canonical plain live body).notesArms

/-- A function with an `if` whose arms are empty, and one with an arm that is not. -/
def guarded : SourceFunction where
  name := "guarded"
  returnType := ["int"]
  parameters := ["int", "n"]
  body := .sequence [
    .branch ["n"] (.sequence [] none) none none,
    .whileLoop ["n", ">", "0"] (.branch ["n", "==", "7"] (.ret ["return", "n", ";"] none) none none)
      none] none
  location := none

theorem bodies_placed_guarded : "   " ∉ guarded.body.tokens ∧
    ∃ g report contents, guarded.prunedGraph = .ok (g, report) ∧
      g.Placed guarded.body.parts contents := by
  have clear : "   " ∉ guarded.body.tokens := by decide
  exact ⟨clear, bodies_placed guarded clear⟩

end SourceFunction

end Flowgraph
