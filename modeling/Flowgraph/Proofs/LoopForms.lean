import Flowgraph.Proofs.Contents
import Flowgraph.Proofs.Recasting
import Flowgraph.Proofs.Reheading

/-!
# Both forms of a loop are printed alike

A `for` loop and the `while` loop that does the same come out of pruning as one graph, but for the
header: what is printed of the two differs in the fragments of that header only.  If control does not
come to the loop, nothing differs at all.
-/

namespace Flowgraph

open Relator

/-! ## Lists that differ in one place -/

/-- The elements of two lists are related by `E`, those in one place by `S`. -/
inductive ButOne {α β : Type} (E S : α → β → Prop) : List α → List β → Prop where
  | here {a : α} {b : β} {l : List α} {l' : List β} (odd : S a b) (rest : List.Forall₂ E l l') :
      ButOne E S (a :: l) (b :: l')
  | later {a : α} {b : β} {l : List α} {l' : List β} (first : E a b) (rest : ButOne E S l l') :
      ButOne E S (a :: l) (b :: l')

namespace ButOne

variable {α β γ δ ε : Type} {E S : α → β → Prop} {l m : List α} {l' m' : List β}

theorem append (one : ButOne E S l l') (rest : List.Forall₂ E m m') :
    ButOne E S (l ++ m) (l' ++ m') := by
  induction one with
  | here odd others => exact .here odd (List.rel_append others rest)
  | later first _ ih => exact .later first ih

theorem mapM {E' S' : γ → δ → Prop} {f : α → Except ε γ} {k : β → Except ε δ}
    (one : ButOne E S l l') (each : ∀ a b, E a b → Both E' (f a) (k b))
    (odd : ∀ a b, S a b → Both S' (f a) (k b)) : Both (ButOne E' S') (l.mapM f) (l'.mapM k) := by
  induction one with
  | here first rest =>
    rw [List.mapM_cons, List.mapM_cons]
    apply (odd _ _ first).bind
    intro c d related
    apply (Both.mapM rest each).bind
    intro cs ds others
    exact .pure (.here related others)
  | later first _ ih =>
    rw [List.mapM_cons, List.mapM_cons]
    apply (each _ _ first).bind
    intro c d related
    apply ih.bind
    intro cs ds others
    exact .pure (.later related others)

/-- What is equal everywhere else stands around the odd place. -/
theorem parts {S : α → α → Prop} {l l' : List α} (one : ButOne Eq S l l') :
    ∃ before a b after, l = before ++ a :: after ∧ l' = before ++ b :: after ∧ S a b := by
  induction one with
  | here odd rest =>
    rw [List.forall₂_eq_eq_eq] at rest
    exact ⟨[], _, _, _, rfl, by rw [rest]; rfl, odd⟩
  | @later a b l l' first _ ih =>
    obtain ⟨before, x, y, after, rfl, rfl, odd⟩ := ih
    exact ⟨a :: before, x, y, after, rfl, by rw [first]; rfl, odd⟩

/-- If an odd element is known by its key, there is one at most. -/
theorem of_forall₂ {P : α → β → Prop} {key : α → Nat} {top : Nat} (related : List.Forall₂ P l l')
    (nodup : (l.map key).Nodup) (each : ∀ a b, P a b → E a b ∨ key a = top ∧ S a b) :
    List.Forall₂ E l l' ∨ ButOne E S l l' := by
  induction related with
  | nil => exact .inl .nil
  | @cons a b l l' first rest ih =>
    obtain ⟨fresh, nodup⟩ := List.nodup_cons.1 nodup
    obtain even | ⟨here, odd⟩ := each a b first
    · exact (ih nodup).imp (.cons even) (.later even)
    · -- No other element has the same key, so all others are even.
      have away : ∀ x ∈ l, key x ≠ top := by
        rintro x member rfl
        exact fresh (here ▸ List.mem_map_of_mem member)
      refine .inr (.here odd (((List.forall₂_and_left l l').2 ⟨away, rest⟩).imp ?_))
      exact fun x y both => (each x y both.2).resolve_right fun odd => both.1 odd.1

end ButOne

/-! ## Texts and records with another header -/

/-- The second text, or list of fragments, has `new` in one place where the first has `old`. -/
def Exchanged {α : Type} [Append α] (old new t t' : α) : Prop :=
  ∃ before after, t = before ++ old ++ after ∧ t' = before ++ new ++ after

theorem Exchanged.around {α : Type} [Append α] [Std.Associative fun a b : α => a ++ b]
    {old new t t' : α} (exchanged : Exchanged old new t t') (before after : α) :
    Exchanged old new (before ++ t ++ after) (before ++ t' ++ after) := by
  obtain ⟨start, rest, rfl, rfl⟩ := exchanged
  exact ⟨before ++ start, rest ++ after, by ac_rfl, by ac_rfl⟩

section Fragments

variable {old new l l' : List String}

theorem Exchanged.not_perm (exchanged : Exchanged old new l l') (apart : old.length ≠ new.length) :
    ¬ l.Perm l' := by
  obtain ⟨before, after, rfl, rfl⟩ := exchanged
  intro perm
  have length := perm.length_eq
  simp only [List.length_append] at length
  omega

/-- What is the same or exchanged stays so with something around it. -/
theorem same_or_exchanged_around (either : l = l' ∨ Exchanged old new l l')
    (before after : List String) : before ++ l ++ after = before ++ l' ++ after ∨
      Exchanged old new (before ++ l ++ after) (before ++ l' ++ after) :=
  either.imp (fun same => by rw [same]) (·.around before after)

theorem ButOne.flatMap {α β : Type} {E S : α → β → Prop} {m : List α} {m' : List β}
    {f : α → List String} {k : β → List String} (one : ButOne E S m m')
    (each : ∀ a b, E a b → f a = k b) (odd : ∀ a b, S a b → Exchanged old new (f a) (k b)) :
    Exchanged old new (m.flatMap f) (m'.flatMap k) := by
  induction one with
  | here first rest =>
    rw [List.flatMap_cons, List.flatMap_cons, List.flatMap_def, List.flatMap_def,
      map_eq_of_forall₂ rest each]
    exact (odd _ _ first).around [] _
  | later first _ ih =>
    rw [List.flatMap_cons, List.flatMap_cons, each _ _ first]
    simpa using ih.around (k _) []

end Fragments

/-- The fragments of one block end in `new` in the second record and in `old` in the first. -/
def GraphRecord.Exchanged (old new : List String) (r r' : GraphRecord) : Prop :=
  ∃ (before after : List BlockRecord) (b : BlockRecord),
    r.blocks = before ++ { b with lines := b.lines ++ old } :: after ∧
    r' = { r with blocks := before ++ { b with lines := b.lines ++ new } :: after }

namespace Render

/-- The fragments are the indent, the keyword of a loop, and no other keywords. -/
def OpensLoop (header : List String) : Prop :=
  ∃ keyword rest, header = Fragment.indent :: keyword :: rest ∧ Fragment.isKeyword keyword = true ∧
    keyword ≠ "if" ∧ ∀ line ∈ rest, Fragment.isKeyword line = false

theorem isKeyword_ofTokens {tokens : List String} {line : String}
    (member : line ∈ Fragment.ofTokens tokens) : Fragment.isKeyword line = false := by
  obtain ⟨token, -, rfl⟩ := List.mem_map.1 member
  exact Fragment.isKeyword_token token

theorem opensLoop_for (condition : List String) : OpensLoop (Fragment.forHeader condition) := by
  refine ⟨"for", ["( ", "; "] ++ Fragment.ofTokens condition ++ ["; ", ") "], rfl, by decide,
    by decide, fun line member => ?_⟩
  simp only [List.mem_append, List.mem_cons, List.not_mem_nil, or_false] at member
  obtain ((rfl | rfl) | member) | rfl | rfl := member
  · decide
  · decide
  · exact isKeyword_ofTokens member
  · decide
  · decide

theorem opensLoop_while (condition : List String) : OpensLoop (Fragment.whileHeader condition) := by
  refine ⟨"while", ["( "] ++ Fragment.ofTokens condition ++ [") "], rfl, by decide, by decide,
    fun line member => ?_⟩
  simp only [List.mem_append, List.mem_cons, List.not_mem_nil, or_false] at member
  obtain (rfl | member) | rfl := member
  · decide
  · exact isKeyword_ofTokens member
  · decide

theorem layout_plain {hasThen noted : Bool} {lines : List String}
    (plain : ∀ line ∈ lines, Fragment.isKeyword line = false) :
    (layout hasThen false noted lines).pieces = lines := by
  induction lines generalizing noted with
  | nil => rfl
  | cons line rest ih =>
    have first := plain line List.mem_cons_self
    have other : (line == "if") = false := by simp_all [Fragment.isKeyword]
    have later : (layout hasThen false noted rest).pieces = rest :=
      ih fun line member => plain line (List.mem_cons_of_mem _ member)
    simp [layout, first, other, later]

/-- A header is printed as it is, behind a placeholder that was still to come. -/
theorem layout_opensLoop {due noted : Bool} {header : List String} (opens : OpensLoop header) :
    (layout false due noted header).pieces = (if due then [placeholder] else []) ++ header := by
  obtain ⟨keyword, rest, rfl, isKeyword, other, plain⟩ := opens
  have indent : Fragment.isKeyword Fragment.indent = false := by decide
  have indent' : (Fragment.indent == "if") = false := by decide
  have other' : (keyword == "if") = false := by simpa using other
  have last : rest.any Fragment.isKeyword = false := by simpa using plain
  have behind : ∀ noted, (layout false false noted rest).pieces = rest := fun _ =>
    layout_plain plain
  cases due <;> simp [layout, indent, indent', isKeyword, other', last, behind]

/-- What stands before the header of a loop is printed in the same way before any other. -/
theorem layout_before (before : List String) (due noted : Bool) :
    ∃ pieces, ∀ header, OpensLoop header →
      (layout false due noted (before ++ header)).pieces = pieces ++ header := by
  induction before generalizing due noted with
  | nil => exact ⟨if due then [placeholder] else [], fun header => layout_opensLoop⟩
  | cons line rest ih =>
    -- The keyword of the header follows, so nothing in front of it is noted.
    have later : ∀ header, OpensLoop header → (rest ++ header).any Fragment.isKeyword = true := by
      rintro header ⟨keyword, tokens, rfl, isKeyword, -⟩
      simp [isKeyword]
    let due' := due || (line == "if" && !noted)
    let settle := due' && line == Fragment.indent
    obtain ⟨pieces, tail⟩ := ih (due' && !settle) noted
    refine ⟨(if settle then [placeholder] else []) ++ line :: pieces, fun header opens => ?_⟩
    have next := tail header opens
    simp only [List.cons_append, layout, later header opens, Bool.not_true, Bool.and_false,
      Bool.false_eq_true, if_false, List.append_assoc]
    rw [next]

end Render

namespace Graph

variable {R : Nat → Nat → Prop} {g g' : Graph} {old new before : List String} {top into past : Nat}
  {a a' : Nat × Block}

/-- Corresponding live blocks that end in the header of a loop: in the old one, and in the new. -/
def Odd (R : Nat → Nat → Prop) (old new : List String) (g g' : Graph) (a a' : Nat × Block) : Prop :=
  Facing R g g' a a' ∧ ∃ before into past, a.2.lines = before ++ old ∧ a'.2.lines = before ++ new ∧
    a.2.Ends (.loops into past)

namespace Likeness

variable (likeness : Likeness R g g') (opens : Render.OpensLoop old) (opens' : Render.OpensLoop new)

include likeness opens opens'

theorem bodyText_exchanged (facing : Facing R g g' a a') (lines : a.2.lines = before ++ old)
    (lines' : a'.2.lines = before ++ new) (ends : a.2.Ends (.loops into past)) :
    Both (Exchanged (String.join old) (String.join new)) (Render.bodyText g a.2)
      (Render.bodyText g' a'.2) := by
  have noThen : a.2.thenTarget = none := by
    cases ends
    assumption
  have noThen' : a'.2.thenTarget = none := by
    have related := isSome_eq_of_rel (likeness.parallels facing).thenTarget
    simpa [noThen] using related
  obtain ⟨pieces, laid⟩ := Render.layout_before before false false
  have text : ∀ header, Render.OpensLoop header →
      String.join (Render.layout false false false (before ++ header)).pieces =
        String.join pieces ++ String.join header := by
    intro header opens
    rw [laid header opens, String.join_append]
  have run : ∀ g : Graph, g.targetLabel? none = pure none := fun _ => rfl
  unfold Render.bodyText
  rw [noThen, noThen', lines, lines', run, run, pure_bind, pure_bind]
  apply (likeness.loopExit_both facing).bind
  intro exitLabel exitLabel' same
  subst same
  cases exitLabel with
  | none =>
    refine .pure ⟨String.join pieces, "", ?_, ?_⟩
    · simp [text old opens]
    · simp [text new opens']
  | some exitLabel =>
    refine .pure
      ⟨String.join pieces, Fragment.indent ++ "# loop_end: " ++ exitLabel ++ "\n", ?_, ?_⟩
    · simp [text old opens, String.append_assoc]
    · simp [text new opens', String.append_assoc]

theorem stanza_exchanged (odd : Odd R old new g g' a a') :
    Both (Exchanged (String.join old) (String.join new)) (Render.stanza g a.1 a.2)
      (Render.stanza g' a'.1 a'.2) := by
  obtain ⟨facing, before, into, past, lines, lines', ends⟩ := odd
  have body := likeness.bodyText_exchanged opens opens' facing lines lines' ends
  obtain ⟨t, t', run, run', start, rest, s, s', exchanged, rfl, rfl⟩ :=
    likeness.stanza_both facing body
  exact ⟨_, _, run, run', exchanged.around start rest⟩

omit opens opens' in
theorem blockRecord_exchanged (odd : Odd R old new g g' a a') :
    Both (fun r r' => ∃ b : BlockRecord, r = some { b with lines := b.lines ++ old } ∧
      r' = some { b with lines := b.lines ++ new })
      (g.blockRecord? a.1 a.2) (g'.blockRecord? a'.1 a'.2) := by
  obtain ⟨facing, before, into, past, lines, lines', -⟩ := odd
  obtain ⟨r, r', run, run', b, rfl, rfl⟩ := likeness.blockRecord_both facing
  exact ⟨_, _, run, run', { b with lines := before }, by rw [lines], by rw [lines']⟩

section One

variable (one : Both (ButOne (Even R g g') (Odd R old new g g')) g.alive g'.alive)

include one

theorem graphText_exchanged : Both (Exchanged (String.join old) (String.join new))
    (Render.graphText g) (Render.graphText g') := by
  apply likeness.graphText_both one
  · intro l l' related
    obtain ⟨ts, ts', run, run', alike⟩ := related.mapM (fun a a' => likeness.stanza_even)
      fun a a' => likeness.stanza_exchanged opens opens'
    obtain ⟨before, t, t', after, rfl, rfl, exchanged⟩ := alike.parts
    refine ⟨_, _, run, run', ?_⟩
    simpa [String.append_assoc] using exchanged.around (String.join before) (String.join after)
  · intro before after t t' exchanged
    exact exchanged.around before after

omit opens opens' in
theorem record_exchanged : Both (GraphRecord.Exchanged old new) g.record g'.record := by
  have printed : Both (ButOne (Even R g g') (Odd R old new g g')) g.printed g'.printed := by
    apply likeness.printed_both one
    intro x x' y y' l l' first last middle
    exact .later (likeness.entry_even first) (middle.append (.cons (likeness.exit_even last) .nil))
  obtain ⟨r, r', run, run', bs, bs', alike, eq, rfl⟩ :=
    likeness.record_both printed fun l l' related =>
      related.mapM (fun a a' => likeness.blockRecord_even) fun a a' =>
        likeness.blockRecord_exchanged
  obtain ⟨before, _, _, after, rfl, rfl, b, rfl, rfl⟩ := alike.parts
  refine ⟨r, _, run, run', before.filterMap id, after.filterMap id, b, ?_, ?_⟩
  · simpa using eq
  · simp

end One

end Likeness

/-- Nothing that is printed tells the two graphs from each other, but that where the old header is
printed of the first, the new one is printed of the second.  `written` and `written'` are the fragments
of what control comes to in either function.  If they are the same, control does not come to the loop
and no header is printed; with the header among them they differ (`Exchanged.not_perm`). -/
inductive PrintsAlikeBut (old new written written' : List String) (g g' : Graph) : Prop where
  | alike (unreached : written = written') (text : Both Eq (Render.graphText g) (Render.graphText g'))
      (record : Both Eq g.record g'.record)
  | header (reached : Exchanged old new written written')
      (text : Both (Exchanged (String.join old) (String.join new)) (Render.graphText g)
        (Render.graphText g')) (record : Both (GraphRecord.Exchanged old new) g.record g'.record)

theorem Likeness.printsAlikeBut {written written' : List String} (likeness : Likeness R g g')
    (opens : Render.OpensLoop old) (opens' : Render.OpensLoop new) (apart : old.length ≠ new.length)
    (held : g.liveFragments.Perm written) (held' : g'.liveFragments.Perm written')
    (either : written = written' ∨ Exchanged old new written written')
    (each : ∀ a a', Facing R g g' a a' →
      a.2.lines = a'.2.lines ∨ a.1 = top ∧ ∃ before into past, a.2.lines = before ++ old ∧
        a'.2.lines = before ++ new ∧ a.2.Ends (.loops into past)) :
    PrintsAlikeBut old new written written' g g' := by
  obtain ⟨l, l', run, run', related⟩ := likeness.alive_both
  obtain rfl := Except.ok.inj (run.symm.trans likeness.canonical.tidy.alive_eq)
  obtain rfl := Except.ok.inj (run'.symm.trans likeness.canonical'.tidy.alive_eq)
  -- No block is listed twice, so at most one in the list ends in the header.
  have nodup : ((g.roll.map g.filed).map Prod.fst).Nodup := by
    have handles : Prod.fst ∘ g.filed = id := rfl
    rw [List.map_map, handles, List.map_id]
    exact likeness.canonical.tidy.nodup.filter _
  obtain even | one := ButOne.of_forall₂ (E := Even R g g') (S := Odd R old new g g') related nodup
    fun a a' facing => (each a a' facing).imp (And.intro facing) fun odd => ⟨odd.1, facing, odd.2⟩
  -- What the blocks hold is what control comes to, so it does not come to the loop in the first case,
  -- and comes to it in the second.
  · have same : g.liveFragments = g'.liveFragments := by
      have lines := map_eq_of_forall₂ even (f := (·.2.lines)) (k := (·.2.lines)) fun _ _ => And.right
      simpa only [liveFragments, List.flatMap_def, List.map_map, Function.comp_def] using
        congrArg List.flatten lines
    have unreached := either.resolve_right fun exchanged =>
      exchanged.not_perm apart (held.symm.trans (same ▸ held'))
    exact .alike unreached (likeness.graphText_even ⟨_, _, run, run', even⟩)
      (likeness.record_even ⟨_, _, run, run', even⟩)
  · have exchanged : Exchanged old new g.liveFragments g'.liveFragments := by
      have held := one.flatMap (f := (·.2.lines)) (k := (·.2.lines)) (fun _ _ => And.right) <| by
        rintro a a' ⟨-, before, -, -, lines, lines', -⟩
        exact ⟨before, [], by rw [lines, List.append_nil], by rw [lines', List.append_nil]⟩
      simpa only [liveFragments, List.flatMap_map] using held
    have reached := either.resolve_left fun same =>
      exchanged.not_perm apart (held.trans (same ▸ held'.symm))
    exact .header reached (likeness.graphText_exchanged opens opens' ⟨_, _, run, run', one⟩)
      (likeness.record_exchanged ⟨_, _, run, run', one⟩)

end Graph

/-! ## What control comes to in both forms -/

namespace Statement

variable {condition : List String} {s s' : Statement}

theorem fragmentsOf_ofClause (clause : Option (List String)) (location location' : Option Location)
    (rest : List Statement) :
    fragmentsOf (sequence (ofClause clause location ++ rest) location').parts =
      clauseLines clause ++ fragmentsOf (sequence rest location').parts := by
  cases clause with
  | none => rfl
  | some tokens =>
    have first : (Part.simple (tokens ++ [";"])).fragments = clauseLines (some tokens) :=
      Fragment.statement_clause tokens
    rw [ofClause, Option.map_some, Option.toList_some, List.singleton_append, parts_cons,
      fragmentsOf_append, ← first]
    simp [parts, returns]

theorem fragmentsOf_forLoop (init update : Option (List String)) (body : Statement)
    (location : Option Location) :
    fragmentsOf (forLoop init condition update body location).parts =
      clauseLines init ++ Fragment.forHeader condition ++
        (fragmentsOf body.parts ++ if body.returns then [] else clauseLines update) := by
  have last : fragmentsOf (if body.returns then [] else update.toList.map .clause) =
      if body.returns then [] else clauseLines update := by
    cases body.returns with
    | true => rfl
    | false => exact fragmentsOf_clauses update
  rw [parts, fragmentsOf_append, fragmentsOf_append, fragmentsOf_cons, fragmentsOf_clauses, last]
  simp [Part.fragments]

/-- A statement returns in both forms or in neither. -/
theorem Rewritten.returns_eq (rewritten : Rewritten (AsWhile condition) s s') :
    s.returns = s'.returns := by
  induction rewritten with
  | here replaced =>
    cases replaced with
    | intro init update body l l₁ l₂ l₃ l₄ l₅ =>
      cases init <;> simp [ofClause, returns, returnsAny]
  | @sequence s s' before after location _ ih =>
    induction before with
    | nil => rw [List.nil_append, List.nil_append, returns_cons, returns_cons, ih]
    | cons t before each => rw [List.cons_append, List.cons_append, returns_cons, returns_cons, each]
  | thenArm condition alternate location _ ih => rw [returns_branch, returns_branch, ih]
  | elseArm condition consequent location _ ih =>
    rw [returns_branch, returns_branch]
    exact congrArg (consequent.returns && ·) ih
  | whileLoop condition location => rfl
  | forLoop init condition update location => rfl

/-- What control comes to is written alike in both forms, but for the header of the loop if control
comes to this. -/
theorem Rewritten.parts_eq (rewritten : Rewritten (AsWhile condition) s s') :
    fragmentsOf s.parts = fragmentsOf s'.parts ∨
      Exchanged (Fragment.forHeader condition) (Fragment.whileHeader condition)
        (fragmentsOf s.parts) (fragmentsOf s'.parts) := by
  induction rewritten with
  | here replaced =>
    cases replaced with
    | intro init update body l l₁ l₂ l₃ l₄ l₅ =>
      refine .inr ⟨clauseLines init,
        fragmentsOf body.parts ++ if body.returns then [] else clauseLines update, ?_, ?_⟩
      · exact fragmentsOf_forLoop init update body l
      · have behind : fragmentsOf (if body.returns then [] else
            (Statement.sequence (ofClause update l₂) l₃).parts) =
            if body.returns then [] else clauseLines update := by
          cases body.returns with
          | true => rfl
          | false => simpa using fragmentsOf_ofClause update l₂ l₃ []
        rw [fragmentsOf_ofClause, parts_cons, returns, if_neg Bool.false_ne_true, parts_nil,
          List.append_nil, parts, parts_cons, fragmentsOf_cons, fragmentsOf_append, behind,
          List.append_assoc]
        rfl
  | @sequence s s' before after location inside ih =>
    induction before with
    | nil =>
      rw [List.nil_append, List.nil_append, parts_cons, parts_cons, fragmentsOf_append,
        fragmentsOf_append, inside.returns_eq]
      exact same_or_exchanged_around ih [] _
    | cons t before each =>
      rw [List.cons_append, List.cons_append, parts_cons, parts_cons]
      cases t.returns with
      | true => exact .inl rfl
      | false =>
        have around := same_or_exchanged_around each (fragmentsOf t.parts) []
        simpa using around
  | thenArm condition alternate location _ ih =>
    have around := same_or_exchanged_around ih (Fragment.ifHeader condition)
      (fragmentsOf (orElse alternate).parts)
    simpa [parts_branch, fragmentsOf_cons, Part.fragments] using around
  | @elseArm s s' condition consequent location _ ih =>
    have around := same_or_exchanged_around ih
      (Fragment.ifHeader condition ++ fragmentsOf consequent.parts) []
    simpa [parts_branch, fragmentsOf_cons, Part.fragments] using around
  | whileLoop condition location _ ih =>
    have around := same_or_exchanged_around ih (Fragment.whileHeader condition) []
    simpa [parts, fragmentsOf_cons, Part.fragments] using around
  | @forLoop s s' init condition update location inside ih =>
    have around := same_or_exchanged_around ih (clauseLines init ++ Fragment.forHeader condition)
      (if s.returns then [] else clauseLines update)
    rw [fragmentsOf_forLoop, fragmentsOf_forLoop, ← inside.returns_eq, ← List.append_assoc,
      ← List.append_assoc]
    exact around

end Statement

namespace SourceFunction

open Statement

/-- If one `for` loop of a function is written as a `while` loop with the update behind its body,
nothing that is printed of the function changes but the header of the loop, and nothing at all if
control does not come to the loop. -/
theorem printsAlikeBut_of_rewritten (f : SourceFunction) {condition : List String}
    {body : Statement} (rewritten : Rewritten (AsWhile condition) f.body body) :
    ∃ g report g' report', f.prunedGraph = .ok (g, report) ∧
      { f with body }.prunedGraph = .ok (g', report') ∧
      g.PrintsAlikeBut (Fragment.forHeader condition) (Fragment.whileHeader condition)
        (fragmentsOf f.body.parts) (fragmentsOf body.parts) g' := by
  obtain ⟨g₀, run, draws⟩ := f.graph_draws
  obtain ⟨g₀', run', draws'⟩ := ({ f with body } : SourceFunction).graph_draws
  obtain ⟨live, live', reached, reached', left⟩ := draws.recast draws' rewritten
  obtain ⟨g, report, prunes, pruned⟩ := prunedGraph_of_draws run draws reached
  obtain ⟨g', report', prunes', pruned'⟩ := prunedGraph_of_draws run' draws' reached'
  refine ⟨g, report, g', report', prunes, prunes', ?_⟩
  -- The graphs show the outlines of what the sweep has left of both functions.
  obtain ⟨g₁, swept, elidable, shown, table⟩ := pruned.shown draws reached
  obtain ⟨g₁', swept', elidable', shown', table'⟩ := pruned'.shown draws' reached'
  obtain ⟨R, O, header, renders⟩ := left g₁ g₁' swept swept'
  obtain ⟨name, returnType, parameters, phase⟩ := pruned.signature draws
  obtain ⟨name', returnType', parameters', phase'⟩ := pruned'.signature draws'
  have likeness := renders.likeness elidable' shown shown' (pruned.canonical draws reached)
    (pruned'.canonical draws' reached') table table' (name.trans name'.symm)
    (returnType.trans returnType'.symm) (parameters.trans parameters'.symm) phase phase'
  obtain ⟨top, each⟩ := renders.lines elidable' shown shown' likeness
  exact likeness.printsAlikeBut (Render.opensLoop_for condition) (Render.opensLoop_while condition)
    (by simp [Fragment.forHeader, Fragment.whileHeader]) (pruned.liveFragments_perm draws reached)
    (pruned'.liveFragments_perm draws' reached') rewritten.parts_eq each

/-- A loop with an update, behind which the function returns. -/
theorem printsAlikeBut_counting_loop :
    Rewritten (AsWhile ["i", "<", "n"])
      (.sequence [.forLoop (some ["i", "=", "0"]) ["i", "<", "n"] (some ["i", "++"])
        (.simple ["f", "(", "i", ")", ";"] none) none, .ret ["return", ";"] none] none)
      (.sequence [.sequence [.simple ["i", "=", "0", ";"] none,
        .whileLoop ["i", "<", "n"] (.sequence [.simple ["f", "(", "i", ")", ";"] none,
          .simple ["i", "++", ";"] none] none) none] none, .ret ["return", ";"] none] none) ∧
    ∃ g report g' report',
      prunedGraph ⟨"count", ["int"], [], .sequence [.forLoop (some ["i", "=", "0"]) ["i", "<", "n"]
        (some ["i", "++"]) (.simple ["f", "(", "i", ")", ";"] none) none, .ret ["return", ";"] none]
        none, none⟩ = .ok (g, report) ∧
      prunedGraph ⟨"count", ["int"], [], .sequence [.sequence [.simple ["i", "=", "0", ";"] none,
        .whileLoop ["i", "<", "n"] (.sequence [.simple ["f", "(", "i", ")", ";"] none,
          .simple ["i", "++", ";"] none] none) none] none, .ret ["return", ";"] none] none, none⟩ =
        .ok (g', report') ∧
      g.PrintsAlikeBut (Fragment.forHeader ["i", "<", "n"]) (Fragment.whileHeader ["i", "<", "n"])
        (["    ", "i ", "= ", "0 ", "; ", "\n"] ++ Fragment.forHeader ["i", "<", "n"] ++
          ["    ", "f ", "( ", "i ", ") ", "; ", "\n", "    ", "i ", "++ ", "; ", "\n",
            "    ", "return ", "; ", "\n"])
        (["    ", "i ", "= ", "0 ", "; ", "\n"] ++ Fragment.whileHeader ["i", "<", "n"] ++
          ["    ", "f ", "( ", "i ", ") ", "; ", "\n", "    ", "i ", "++ ", "; ", "\n",
            "    ", "return ", "; ", "\n"])
        g' := by
  have rewritten := Rewritten.sequence [] [.ret ["return", ";"] none] none <| .here <|
    @AsWhile.intro ["i", "<", "n"] (some ["i", "=", "0"]) (some ["i", "++"])
      (.simple ["f", "(", "i", ")", ";"] none) none none none none none none
  exact ⟨rewritten, printsAlikeBut_of_rewritten ⟨"count", ["int"], [], _, none⟩ rewritten⟩

end SourceFunction

end Flowgraph
