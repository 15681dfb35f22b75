import Flowgraph.Proofs.Pairing

/-!
# For loops and while loops

A `for` loop can be written as a `while` loop that has the update behind its body.  The graphs of the
two are not alike: the update of the `for` loop has a block of its own, numbered behind the body, and
that of the `while` loop stands in the block in which the body ends.  Everything else is.
-/

namespace Flowgraph

namespace Statement

/-- One statement somewhere inside another was replaced. -/
inductive Rewritten (base : Statement → Statement → Prop) : Statement → Statement → Prop where
  | here {s s' : Statement} (replaced : base s s') : Rewritten base s s'
  | sequence {s s' : Statement} (before after : List Statement) (location : Option Location)
      (inside : Rewritten base s s') :
      Rewritten base (.sequence (before ++ s :: after) location)
        (.sequence (before ++ s' :: after) location)
  | thenArm {s s' : Statement} (condition : List String) (alternate : Option Statement)
      (location : Option Location) (inside : Rewritten base s s') :
      Rewritten base (.branch condition s alternate location) (.branch condition s' alternate location)
  | elseArm {s s' : Statement} (condition : List String) (consequent : Statement)
      (location : Option Location) (inside : Rewritten base s s') :
      Rewritten base (.branch condition consequent (some s) location)
        (.branch condition consequent (some s') location)
  | whileLoop {s s' : Statement} (condition : List String) (location : Option Location)
      (inside : Rewritten base s s') :
      Rewritten base (.whileLoop condition s location) (.whileLoop condition s' location)
  | forLoop {s s' : Statement} (init : Option (List String)) (condition : List String)
      (update : Option (List String)) (location : Option Location) (inside : Rewritten base s s') :
      Rewritten base (.forLoop init condition update s location)
        (.forLoop init condition update s' location)

/-- A clause of a `for` loop as a statement of its own, if there is one. -/
def ofClause (clause : Option (List String)) (location : Option Location) : List Statement :=
  (clause.map fun tokens => .simple (tokens ++ [";"]) location).toList

/-- The second statement is the first one, a `for` loop, written as a `while` loop. -/
inductive AsWhile (condition : List String) : Statement → Statement → Prop where
  | intro (init update : Option (List String)) (body : Statement)
      (l l₁ l₂ l₃ l₄ l₅ : Option Location) :
      AsWhile condition (.forLoop init condition update body l)
        (.sequence (ofClause init l₁ ++
          [.whileLoop condition (.sequence (body :: ofClause update l₂) l₃) l₄]) l₅)

end Statement

theorem Fragment.statement_clause (tokens : List String) :
    Fragment.statement (tokens ++ [";"]) = Fragment.clause tokens := by
  simp [Fragment.statement, Fragment.clause, Fragment.ofTokens]

namespace Graph

open Statement

variable {g g' : Graph} {s s' : Statement} {P Q Q' : Spot} {n m n' m' c c' : Nat} {p : List String}
  {condition : List String} {location : Option Location} {rest : List Statement}

/-- A clause that is written as a statement adds its fragments to the block in which control is. -/
theorem Layout.of_clause {clause : Option (List String)} {l : Option Location}
    (layout : g.Layout (.sequence (ofClause clause l ++ rest) location) (some (c, p)) Q n m) :
    g.Layout (.sequence rest location) (some (c, p ++ clauseLines clause)) Q n m := by
  cases clause with
  | none =>
    rw [show clauseLines none = [] from rfl, List.append_nil]
    exact layout
  | some tokens =>
    rw [show clauseLines (some tokens) = Fragment.clause tokens from rfl,
      ← Fragment.statement_clause]
    cases layout with
    | cons first second =>
      cases first
      exact second

/-! ## The blocks of both loops -/

/-- The blocks of a pair, if the first graph has a `for` loop where the second has a `while` loop.
They match, or they are the two headers, or the first is the block in which the body ends and the
second holds the update as well.  The update of the `for` loop stands in block `gap`. -/
inductive Recast (g g' : Graph) (condition : List String) (header : Nat) (gap : Option Nat)
    (pairs : List (Nat × Nat)) (a : Nat × Nat) : Prop where
  | same (matched : Match g g' pairs a)
  | header {i k i' k' : Nat} (here : a.1 = header)
      (loop : g.Has a.1 (Fragment.forHeader condition) (.loops (some i) (some k)))
      (loop' : g'.Has a.2 (Fragment.whileHeader condition) (.loops (some i') (some k')))
      (into : (i, i') ∈ pairs) (past : (k, k') ∈ pairs)
  | update {k k' : Nat} {q u : List String} (next : gap = some (a.1 + 1))
      (ends : g.Has a.1 q (.goes (some (a.1 + 1)))) (back : g.Has (a.1 + 1) u (.goes (some k)))
      (back' : g'.Has a.2 (q ++ u) (.goes (some k'))) (pair : (k, k') ∈ pairs)

theorem lenient_recast {header : Nat} {gap : Option Nat} :
    Lenient g g' (Recast g g' condition header gap) where
  matched _ _ := .same
  grows pairs later a recast sub := by
    cases recast with
    | same matched => exact .same (matched.mono sub)
    | header here loop loop' into past => exact .header here loop loop' (sub _ into) (sub _ past)
    | update next ends back back' pair => exact .update next ends back back' (sub _ pair)

/-- The two statements are alike but for one loop, which is a `for` loop in the first and a `while`
loop in the second. -/
def AlikeRecast (g g' : Graph) (condition : List String) (s : Statement) (start : Nat × Nat)
    (n m n' m' : Nat) (Q Q' : Spot) : Prop :=
  ∃ header gap, (∀ i, gap = some i → n ≤ i ∧ i < m) ∧
    Alike g g' (gap ≠ some ·) (Recast g g' condition header gap) s start n m n' m' Q Q'

/-- What follows from a recast part of a statement holds of the statement. -/
theorem AlikeRecast.lift {t : Statement} {start start₀ : Nat × Nat} {n₀ m₀ n₀' m₀' : Nat}
    {Q₀ Q₀' : Spot} (inner : AlikeRecast g g' condition t start₀ n₀ m₀ n₀' m₀' Q₀ Q₀')
    (le : n ≤ n₀ ∧ m₀ ≤ m) (outer : ∀ header gap, (∀ i, gap = some i → n₀ ≤ i ∧ i < m₀) →
      Alike g g' (gap ≠ some ·) (Recast g g' condition header gap) t start₀ n₀ m₀ n₀' m₀' Q₀ Q₀' →
      Alike g g' (gap ≠ some ·) (Recast g g' condition header gap) s start n m n' m' Q Q') :
    AlikeRecast g g' condition s start n m n' m' Q Q' := by
  obtain ⟨header, gap, within, alike⟩ := inner
  refine ⟨header, gap, fun i eq => ?_, outer header gap within alike⟩
  have := within i eq
  omega

theorem kept_outside {gap : Option Nat} {low high i : Nat}
    (within : ∀ i, gap = some i → low ≤ i ∧ i < high) (away : i < low ∨ high ≤ i) :
    gap ≠ some i := by
  intro eq
  have := within i eq
  omega

theorem alike_asWhile (replaced : AsWhile condition s s')
    (layout : g.Layout s (some (c, p)) Q n m) (layout' : g'.Layout s' (some (c', p)) Q' n' m')
    (below : c < n ∧ c' < n') : AlikeRecast g g' condition s (c, c') n m n' m' Q Q' := by
  cases replaced with
  | intro init update body l l₁ l₂ l₃ l₄ l₅ =>
  cases layout with
  | @forLoop _ _ _ _ _ _ _ _ m R ends header inside meets back =>
  have sequence := layout'.of_clause
  cases sequence with
  | cons first second =>
  cases first with
  | @whileLoop _ _ _ _ _ _ m' R' ends' header' inside' back' =>
  cases second
  cases inside' with
  | @cons _ _ _ _ S _ _ k _ inside' behind =>
  have le := inside.le
  have le' := inside'.le
  have le'' := behind.le
  -- The update has the number `m`, behind those of the body; there are no such blocks in the other.
  have within : ∀ i, some m = some i → m ≤ i ∧ i < m + 1 := by
    intro i eq
    cases eq
    omega
  have alike : Alike g g' (some m ≠ some ·) (Recast g g' condition n (some m)) body
      (n + 1, n' + 1) (n + 2) m (n' + 2) k R S := by
    apply alike_of_twin lenient_recast (.refl body) inside inside' _ (by omega)
    intro i low high
    exact kept_outside within (.inl high)
  obtain ⟨inner, out, climbs, paired, -, spots⟩ := alike
  refine ⟨n, some m, fun i eq => ⟨?_, ?_⟩, ?_⟩
  · have := within i eq
    omega
  · have := within i eq
    omega
  apply alike_loop lenient_recast ⟨kept_outside within (.inl (by omega)),
    kept_outside within (.inl (by omega)), kept_outside within (.inr (by omega))⟩ below ends ends'
    header header' (fun all into past => .header rfl header header' into past)
    (climbs.widen (Nat.le_refl m) le'') .nil (by omega) (by omega) paired (by simp)
  · intro all sub a member
    rw [List.append_nil] at sub member
    by_cases last : out = some a
    · -- The body ends here; the update follows in the next block, or stands behind the body.
      obtain ⟨q, leaves, leaves'⟩ := spots a last
      have next : a.1 + 1 = m := by
        obtain ⟨⟨_, eq⟩, same⟩ | next := inside.leaves_last leaves
        · simp only [Option.some.injEq, Prod.mk.injEq] at eq
          omega
        · exact next
      subst next leaves'
      rw [← List.append_nil (ofClause update l₂)] at behind
      have rest := behind.of_clause
      cases rest
      exact .update rfl (meets a.1 q leaves) back (back' a.2 _ rfl) (sub (n, n') List.mem_cons_self)
    · apply lenient_recast.grows _ _ a (paired.matched a member (Ne.symm last))
      exact fun b inside => sub b (List.mem_cons_of_mem _ inside)
  · intro returns
    cases returns

/-- Two sequences that begin with the same statement. -/
theorem alikeRecast_cons {t : Statement} {rest' : List Statement}
    (layout : g.Layout (.sequence (t :: rest) location) (some (c, p)) Q n m)
    (layout' : g'.Layout (.sequence (t :: rest') location) (some (c', p)) Q' n' m')
    (below : c < n ∧ c' < n')
    (behind : ∀ {Q Q' : Spot} {n m n' m' c c' : Nat} {p : List String},
      g.Layout (.sequence rest location) (some (c, p)) Q n m →
      g'.Layout (.sequence rest' location) (some (c', p)) Q' n' m' → c < n ∧ c' < n' →
      AlikeRecast g g' condition (.sequence rest location) (c, c') n m n' m' Q Q') :
    AlikeRecast g g' condition (.sequence (t :: rest) location) (c, c') n m n' m' Q Q' := by
  cases layout with
  | @cons _ _ _ _ R _ _ k _ first second =>
  cases layout' with
  | @cons _ _ _ _ R' _ _ k' _ first' second' =>
  have le := And.intro first.le second.le
  have le' := And.intro first'.le second'.le
  have alike : ∀ header gap, (∀ i, gap = some i → k ≤ i ∧ i < m) →
      Alike g g' (gap ≠ some ·) (Recast g g' condition header gap) t (c, c') n k n' k' R R' := by
    intro header gap within
    apply alike_of_twin lenient_recast (.refl t) first first' _ below
    intro i low high
    exact kept_outside within (.inl high)
  by_cases returns : t.AlwaysReturns
  · have first := alike 0 none (by simp)
    exact ⟨0, none, by simp, alike_behind location first returns le.2 le'.2⟩
  · -- Control gets past the first statement, in both graphs from the same place.
    obtain ⟨_, out, -, -, dead, spots⟩ := alike 0 none (by simp)
    obtain ⟨a, last⟩ := Option.ne_none_iff_exists'.1 fun none => returns (dead.1 none)
    obtain ⟨q, leaves, leaves'⟩ := spots a last
    subst leaves leaves'
    have low := first.leaves_below (by simpa [Spot.Below] using below.1) a.1 q rfl
    have low' := first'.leaves_below (by simpa [Spot.Below] using below.2) a.2 q rfl
    apply (behind second second' ⟨low, low'⟩).lift ⟨le.1, Nat.le_refl m⟩
    intro header gap within later
    apply alike_cons lenient_recast (alike header gap within) le le'
    intro b r out out'
    simp only [Option.some.injEq, Prod.mk.injEq] at out out'
    obtain rfl : a = b := Prod.ext out.1 out'.1
    obtain rfl := out.2
    exact later

/-- Statements that differ in one loop, which was a `for` loop and became a `while` loop. -/
theorem alike_of_rewritten (rewritten : Rewritten (AsWhile condition) s s')
    (layout : g.Layout s (some (c, p)) Q n m) (layout' : g'.Layout s' (some (c', p)) Q' n' m')
    (below : c < n ∧ c' < n') : AlikeRecast g g' condition s (c, c') n m n' m' Q Q' := by
  induction rewritten generalizing c c' p n m n' m' Q Q' with
  | here replaced => exact alike_asWhile replaced layout layout' below
  | sequence before after location inside ih =>
    induction before generalizing c c' p n m n' m' Q Q' with
    | cons t before ih' => exact alikeRecast_cons layout layout' below ih'
    | nil =>
      cases layout with
      | cons first second =>
      cases layout' with
      | cons first' second' =>
      have le := And.intro first.le second.le
      apply (ih first first' below).lift ⟨Nat.le_refl n, le.2⟩
      intro header gap within alike
      apply alike_cons lenient_recast alike le ⟨first'.le, second'.le⟩
      intro a r out out'
      subst out out'
      have low := first.leaves_below (by simpa [Spot.Below] using below.1) a.1 r rfl
      have low' := first'.leaves_below (by simpa [Spot.Below] using below.2) a.2 r rfl
      apply alike_of_twin lenient_recast (.refl _) second second' _ ⟨low, low'⟩
      intro i low high
      exact kept_outside within (.inr low)
  | thenArm cond alternate location inside ih =>
    cases layout with
    | branch ends consequent meets alternate meets₂ =>
    cases layout' with
    | branch ends' consequent' meets' alternate' meets₂' =>
    have le := And.intro consequent.le alternate.le
    have le' := And.intro consequent'.le alternate'.le
    apply (ih consequent consequent' (by omega)).lift (by omega)
    intro header gap within alike
    apply alike_branch location lenient_recast ⟨kept_outside within (by omega),
      kept_outside within (by omega), kept_outside within (by omega)⟩ below ends ends' alike _
      (by omega) (by omega) meets meets' meets₂ meets₂'
    apply alike_of_twin lenient_recast (.refl _) alternate alternate' _ (by omega)
    intro i low high
    exact kept_outside within (by omega)
  | elseArm cond consequent location inside ih =>
    cases layout with
    | branch ends consequent meets alternate meets₂ =>
    cases layout' with
    | branch ends' consequent' meets' alternate' meets₂' =>
    have le := And.intro consequent.le alternate.le
    have le' := And.intro consequent'.le alternate'.le
    apply (ih alternate alternate' (by omega)).lift (by omega)
    intro header gap within alike
    apply alike_branch location lenient_recast ⟨kept_outside within (by omega),
      kept_outside within (by omega), kept_outside within (by omega)⟩ below ends ends' _ alike
      (by omega) (by omega) meets meets' meets₂ meets₂'
    apply alike_of_twin lenient_recast (.refl _) consequent consequent' _ (by omega)
    intro i low high
    exact kept_outside within (by omega)
  | whileLoop cond location inside ih =>
    cases layout with
    | whileLoop ends header layout back =>
    cases layout' with
    | whileLoop ends' header' layout' back' =>
    have le := And.intro layout.le layout'.le
    apply (ih layout layout' (by omega)).lift (by omega)
    intro number gap within alike
    exact alike_while location lenient_recast ⟨kept_outside within (by omega),
      kept_outside within (by omega), kept_outside within (by omega)⟩ below ends ends' header header'
      alike le back back'
  | forLoop init cond update location inside ih =>
    cases layout with
    | forLoop ends header layout meets back =>
    cases layout' with
    | forLoop ends' header' layout' meets' back' =>
    have le := And.intro layout.le layout'.le
    apply (ih layout layout' (by omega)).lift (by omega)
    intro number gap within alike
    exact alike_for init update location lenient_recast ⟨kept_outside within (by omega),
      kept_outside within (by omega), kept_outside within (by omega),
      kept_outside within (by omega)⟩ below ends ends' header header' alike le meets meets' back back'

end Graph

end Flowgraph
