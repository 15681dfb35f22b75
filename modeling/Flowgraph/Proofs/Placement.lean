import Flowgraph.Proofs.Pairing
import Flowgraph.Proofs.Parts
import Mathlib.Data.List.Nodup

/-!
# Where the parts of a statement are placed

Every part of a statement that control can come to is written to one block, and the blocks that
control can get to hold nothing else.  `Layout.stores` lists the parts of a statement with the
numbers of their blocks.  A header ends its block, and so does a return; the block of an `if`
remembers what is known of its arms in `Forks`.
-/

namespace Flowgraph

/-- The parts that are listed for block `u`. -/
def partsAt (L : List (Nat × Part)) (u : Nat) : List Part := (L.filter (·.1 == u)).map (·.2)

section PartsAt

variable {L L' : List (Nat × Part)} {u v : Nat} {p : Part}

@[simp] theorem partsAt_nil : partsAt [] u = [] := rfl

@[simp] theorem partsAt_append : partsAt (L ++ L') u = partsAt L u ++ partsAt L' u := by
  simp [partsAt]

theorem partsAt_cons : partsAt ((v, p) :: L) u = (if v = u then [p] else []) ++ partsAt L u := by
  by_cases same : v = u <;> simp [partsAt, same]

theorem partsAt_eq_nil (away : ∀ a ∈ L, a.1 ≠ u) : partsAt L u = [] := by
  rw [partsAt, List.map_eq_nil_iff, List.filter_eq_nil_iff]
  intro a member
  simpa using away a member

@[simp] theorem partsAt_map {l : List Part} : partsAt (l.map (v, ·)) u = if v = u then l else [] := by
  by_cases same : v = u <;> simp [partsAt, List.filter_map, Function.comp_def, same]

/-- Sorted by their blocks, the parts are the same. -/
theorem flatMap_partsAt_perm {keys : List Nat} (nodup : keys.Nodup) (all : ∀ a ∈ L, a.1 ∈ keys) :
    (keys.flatMap (partsAt L)).Perm (L.map (·.2)) := by
  induction L with
  | nil => simp
  | cons a L ih =>
    obtain ⟨v, p⟩ := a
    have rest := ih fun a member => all a (List.mem_cons_of_mem _ member)
    obtain ⟨before, after, rfl⟩ := List.append_of_mem (all (v, p) List.mem_cons_self)
    obtain ⟨fresh, fresh'⟩ : v ∉ before ∧ v ∉ after := by
      have := List.nodup_middle.1 nodup
      simpa using (List.nodup_cons.1 this).1
    -- The first part stands in front of the other parts of its block.
    have other : ∀ l : List Nat, v ∉ l →
        l.flatMap (partsAt ((v, p) :: L)) = l.flatMap (partsAt L) := by
      intro l away
      refine List.flatMap_congr fun u member => ?_
      have ne : v ≠ u := fun eq => away (eq ▸ member)
      simp [partsAt_cons, ne]
    rw [List.flatMap_append, List.flatMap_cons, other before fresh, other after fresh', partsAt_cons,
      if_pos rfl, List.singleton_append, List.cons_append, List.map_cons]
    rw [List.flatMap_append, List.flatMap_cons] at rest
    exact List.perm_middle.trans (rest.cons p)

end PartsAt

namespace Statement

variable {s : Statement}

/-- A statement without parts does not return. -/
theorem returns_of_parts_eq_nil (blank : s.parts = []) : s.returns = false := by
  induction s using Statement.induction with
  | simple | whileLoop | forLoop => rfl
  | ret => simp [parts] at blank
  | sequence body location each =>
    induction body with
    | nil => rfl
    | cons s rest ih =>
      rw [parts_cons, List.append_eq_nil_iff] at blank
      have first := each s List.mem_cons_self blank.1
      have second := blank.2
      rw [first, if_neg Bool.false_ne_true] at second
      rw [returns_cons, first, ih (fun t member => each t (List.mem_cons_of_mem _ member)) second]
      rfl
  | branch => simp [parts] at blank

end Statement

namespace Graph

variable {g : Graph} {live : List Nat} {s : Statement} {P Q : Spot}
  {c n m u i : Nat} {p lines : List String} {e : Ending (Option Nat)} {part : Part}

/-! ## What is met first -/

/-- Control leaves a statement in the block in which it came, or in one of the new blocks. -/
theorem Layout.leaves_place {q : Nat} {p' : List String} (layout : g.Layout s (some (c, p)) Q n m)
    (out : Q = some (q, p')) : q = c ∨ n ≤ q ∧ q < m := by
  obtain ⟨p'', same⟩ | new := layout.leaves out
  · cases same
    exact .inl rfl
  · exact .inr new

/-- A statement without parts leaves control where it is. -/
theorem Layout.of_blank (layout : g.Layout s P Q n m) (blank : s.parts = []) : Q = P ∧ m = n := by
  induction layout with
  | skip | nil => exact ⟨rfl, rfl⟩
  | simple | ret | branch | whileLoop | forLoop => simp [Statement.parts] at blank
  | @cons s rest l P Q R n m k first second ih₁ ih₂ =>
    rw [Statement.parts_cons, List.append_eq_nil_iff] at blank
    have goesOn := Statement.returns_of_parts_eq_nil blank.1
    rw [goesOn, if_neg Bool.false_ne_true] at blank
    obtain ⟨rfl, rfl⟩ := ih₁ blank.1
    exact ih₂ blank.2

/-- The first part of a statement is written to the block in which control comes, unless that block
is left at once and the part opens another one. -/
theorem Layout.opens (layout : g.Layout s P Q n m) (start : P = some (c, p))
    (first : s.parts.head? = some part) :
    g.Begins c (p ++ part.fragments) ∨
      ∃ i, n ≤ i ∧ i < m ∧ g.Has c p (.goes (some i)) ∧ g.Begins i part.fragments := by
  induction layout generalizing c p with
  | skip => cases start
  | simple begins =>
    cases start
    cases first
    exact .inl begins
  | ret ends =>
    cases start
    cases first
    exact .inl ends.begins
  | nil => simp at first
  | @cons s rest l P Q R n m k layout₁ layout₂ ih₁ ih₂ =>
    have le := layout₂.le
    rw [Statement.parts_cons] at first
    cases parts : s.parts with
    | nil =>
      -- The first part is one of the statements behind, which start where this one did.
      obtain ⟨rfl, rfl⟩ := layout₁.of_blank parts
      rw [parts, Statement.returns_of_parts_eq_nil parts, if_neg Bool.false_ne_true,
        List.nil_append] at first
      exact ih₂ start first
    | cons part' others =>
      rw [parts, List.cons_append, List.head?_cons] at first
      cases first
      obtain here | ⟨i, low, high, has, begins⟩ := ih₁ start (by rw [parts]; rfl)
      · exact .inl here
      · exact .inr ⟨i, low, by omega, has, begins⟩
  | branch ends =>
    cases start
    cases first
    exact .inl ends.begins
  | whileLoop ends header inside =>
    cases start
    cases first
    have le := inside.le
    exact .inr ⟨_, Nat.le_refl _, by omega, ends, header.begins⟩
  | @forLoop init cond update body l c' p' n m Q ends header inside =>
    cases start
    have le := inside.le
    cases init with
    | some init =>
      cases first
      exact .inl ends.begins
    | none =>
      -- Without a first clause the loop opens with its header.
      cases first
      exact .inr ⟨_, Nat.le_refl _, by omega, by simpa [clauseLines] using ends, header.begins⟩

/-- What is known of the parts inside a header that are entered in block `t`, have the blocks below
`k`, and lead to block `r`: there is none, or control comes to the first of them first. -/
def Arm (g : Graph) (inside : List Part) (t k r : Nat) : Prop :=
  inside = [] ∧ g.Has t [] (.goes (some r)) ∨
    ∃ part i, inside.head? = some part ∧ t ≤ i ∧ i < k ∧
      (i = t ∨ g.Has t [] (.goes (some i))) ∧ g.Begins i part.fragments

/-- An `if` forks to the blocks `t` and `t'`, and its arms are apart. -/
structure Forks (g : Graph) (a : Statement) (b : Option Statement) (t t' : Nat) : Prop where
  less : t < t'
  arms : ∃ r, t' < r ∧ g.Arm a.parts t t' r ∧ g.Arm (Statement.orElse b).parts t' r r ∧
    g.Contained t t' ∧ g.Contained t' r

theorem Layout.arm {k r : Nat} (layout : g.Layout s (some (n, [])) Q (n + 1) k)
    (meets : g.Joins Q (some r)) : g.Arm s.parts n k r := by
  have le := layout.le
  cases parts : s.parts with
  | nil =>
    obtain ⟨rfl, rfl⟩ := layout.of_blank parts
    exact .inl ⟨rfl, meets n [] rfl⟩
  | cons part rest =>
    obtain here | ⟨i, low, high, has, begins⟩ := layout.opens rfl (by rw [parts]; rfl)
    · exact .inr ⟨part, n, rfl, Nat.le_refl n, by omega, .inl rfl, here⟩
    · exact .inr ⟨part, i, rfl, by omega, high, .inr has, begins⟩

/-- The last clause of a loop stands behind its body. -/
theorem Arm.update {t : Nat} {update : Option (List String)} (arm : g.Arm s.parts t m m)
    (back : g.Has m (clauseLines update) e) (low : t ≤ m) :
    g.Arm (s.parts ++ if s.returns then [] else update.toList.map .clause) t (m + 1) m := by
  obtain ⟨blank, has⟩ | ⟨part, i, first, above, high, way, begins⟩ := arm
  · rw [blank, Statement.returns_of_parts_eq_nil blank, if_neg Bool.false_ne_true, List.nil_append]
    cases update with
    | none => exact .inl ⟨rfl, has⟩
    | some tokens =>
      exact .inr ⟨.clause tokens, m, rfl, low, Nat.lt_succ_self m, .inr has, back.begins⟩
  · exact .inr ⟨part, i, by rw [List.head?_append, first]; rfl, above, by omega, way, begins⟩

/-- From inside a statement control goes to its own blocks. -/
theorem Layout.arc_inside (sound : g.Sound) (layout : g.Layout s (some (c, p)) Q n m) (below : c < n)
    (inner : Inner c n m Q u) (arc : g.Arc u (some v)) : n ≤ v ∧ v < m := by
  obtain ⟨lines, e, has, target⟩ := arc
  obtain ⟨rfl, -⟩ | targets := layout.range sound rfl below u inner lines e has
  · simp [Ending.targets] at target
  · obtain ⟨w, eq, low, high⟩ := targets (some v) target
    cases eq
    exact ⟨low, high⟩

/-- The loops of an arm are in the arm. -/
theorem Layout.contained {r : Nat} (sound : g.Sound) (layout : g.Layout s (some (n, [])) Q (n + 1) m)
    (meets : g.Joins Q (some r)) : g.Contained n m := by
  intro v low high j loop
  obtain ⟨lines, into, has⟩ := loop
  obtain inner | ⟨p, out⟩ := inner_or_end (u := v) (c := n) (n := n + 1) (m := m) (by omega) Q
  · have arc : g.Arc v (some j) := ⟨lines, _, has, by simp [Ending.targets]⟩
    have := layout.arc_inside sound (by omega) inner arc
    omega
  · cases (has.unique sound (meets v p out)).2

/-! ## The parts of the blocks -/

/-- How control leaves a block with these parts: behind its last header or return, if there is
one. -/
inductive Closes (g : Graph) : List Part → Ending (Option Nat) → Prop where
  | goes {passed : List Part} {k : Option Nat} (passes : ∀ x ∈ passed, x.Passes) :
      Closes g passed (.goes k)
  | returns {passed : List Part} (tokens : List String) (passes : ∀ x ∈ passed, x.Passes) :
      Closes g (passed ++ [.ret tokens]) .returns
  | branches {passed : List Part} {a : Statement} {b : Option Statement} {t t' : Nat}
      (condition : List String) (passes : ∀ x ∈ passed, x.Passes) (forks : g.Forks a b t t') :
      Closes g (passed ++ [.branch condition a b]) (.branches (some t) (some t'))
  | loops {passed : List Part} {header : Part} {t k r : Nat} {past : Option Nat}
      (passes : ∀ x ∈ passed, x.Passes) (isLoop : header.isLoop = true)
      (enters : g.Arm header.inside t k r) : Closes g (passed ++ [header]) (.loops (some t) past)

theorem Closes.prepend {passed parts : List Part} (closes : g.Closes parts e)
    (passes : ∀ x ∈ passed, x.Passes) : g.Closes (passed ++ parts) e := by
  cases closes with
  | goes passes' => exact .goes (List.forall_mem_append.2 ⟨passes, passes'⟩)
  | returns tokens passes' =>
    rw [← List.append_assoc]
    exact .returns tokens (List.forall_mem_append.2 ⟨passes, passes'⟩)
  | branches condition passes' forks =>
    rw [← List.append_assoc]
    exact .branches condition (List.forall_mem_append.2 ⟨passes, passes'⟩) forks
  | loops passes' isLoop enters =>
    rw [← List.append_assoc]
    exact .loops (List.forall_mem_append.2 ⟨passes, passes'⟩) isLoop enters

/-- Control comes to the blocks from `n` to below `m` from the block `c` or from each other. -/
def Secluded (g : Graph) (c n m : Nat) : Prop :=
  ∀ w u, n ≤ u → u < m → w < u → g.Arc w (some u) → w = c ∨ n ≤ w

/-- The blocks behind a place that control does not come to are not reached either. -/
theorem Secluded.dead (secluded : g.Secluded c n m) (reached : g.Reached live) (below : c < n)
    (dead : c ∉ 0 :: live) : ∀ u, n ≤ u → u < m → u ∉ 0 :: live := by
  -- A block that is reached is entered from a block before it, so induct on the number.
  intro u
  induction u using Nat.strongRecOn with
  | ind u ih =>
    intro low high inside
    have other : u ≠ 0 := by omega
    obtain ⟨w, source, less, arc⟩ := reached.entered u (List.mem_of_ne_of_mem other inside)
    obtain rfl | later := secluded w u low high less arc
    · exact dead source
    · exact ih w less later (by omega) source

/-- The parts of a statement, with the numbers of the blocks that they are written to.  Control comes
to the statement in block `c`, behind the fragments `p`. -/
structure Stores (g : Graph) (live : List Nat) (s : Statement) (c : Nat) (p : List String) (Q : Spot)
    (n m : Nat) (L : List (Nat × Part)) : Prop where
  listed : L.map (·.2) = s.parts
  within : ∀ a ∈ L, (a.1 = c ∨ n ≤ a.1 ∧ a.1 < m) ∧ a.1 ∈ 0 :: live
  inner : ∀ u ∈ 0 :: live, Inner c n m Q u → ∀ lines e, g.Has u lines e →
    lines = (if u = c then p else []) ++ fragmentsOf (partsAt L u) ∧ g.Closes (partsAt L u) e
  out : ∀ q p', Q = some (q, p') → q ∈ 0 :: live →
    p' = (if q = c then p else []) ++ fragmentsOf (partsAt L q) ∧ ∀ x ∈ partsAt L q, x.Passes
  past : s.returns = false ↔ ∃ q p', Q = some (q, p') ∧ q ∈ 0 :: live

theorem Stores.outside {L : List (Nat × Part)} (stores : g.Stores live s c p Q n m L) (other : u ≠ c)
    (outside : u < n ∨ m ≤ u) : partsAt L u = [] := by
  apply partsAt_eq_nil
  intro a member same
  have := (stores.within a member).1
  omega

/-- In the blocks of a statement that starts in an empty block there is nothing but its parts, also
in the one where control leaves it for the place `k`. -/
theorem Stores.holds {L : List (Nat × Part)} {k : Option Nat} (stores : g.Stores live s c [] Q n m L)
    (sound : g.Sound) (meets : g.Joins Q k) (reached : u ∈ 0 :: live)
    (blocks : Inner c n m Q u ∨ ∃ p, Q = some (u, p)) (has : g.Has u lines e) :
    lines = fragmentsOf (partsAt L u) ∧ g.Closes (partsAt L u) e := by
  obtain inner | ⟨p, out⟩ := blocks
  · have stored := stores.inner u reached inner lines e has
    rwa [ite_self, List.nil_append] at stored
  · obtain ⟨eq, passes⟩ := stores.out u p out reached
    obtain ⟨rfl, rfl⟩ := (meets u p out).unique sound has
    rw [ite_self, List.nil_append] at eq
    exact ⟨eq, .goes passes⟩

/-- The blocks of a statement that starts in the block before its range. -/
theorem Layout.place {t k : Nat} (layout : g.Layout s (some (t, [])) Q (t + 1) k)
    (blocks : Inner t (t + 1) k Q u ∨ ∃ p, Q = some (u, p)) : t ≤ u ∧ u < k := by
  have le := layout.le
  obtain inner | ⟨p, out⟩ := blocks
  · have := inner.1
    omega
  · exact layout.arm_leaves out

theorem Reached.target (reached : g.Reached live) (inside : u ∈ 0 :: live) (has : g.Has u lines e)
    {v : Nat} (target : some v ∈ e.targets none) : v ∈ 0 :: live :=
  List.mem_cons_of_mem 0 (reached.closed u inside v ⟨lines, e, has, target⟩)

variable {L L' : List (Nat × Part)}

/-- Two statements in a row, when control gets past the first. -/
theorem Stores.cons {t : Statement} {rest : List Statement} {l : Option Location} {q k : Nat}
    {p' : List String} {R : Spot}
    (first : g.Stores live t c p (some (q, p')) n m L)
    (second : g.Stores live (.sequence rest l) q p' R m k L')
    (layout : g.Layout t (some (c, p)) (some (q, p')) n m)
    (layout' : g.Layout (.sequence rest l) (some (q, p')) R m k) (below : c < n)
    (alive : q ∈ 0 :: live) :
    g.Stores live (.sequence (t :: rest) l) c p R n k (L ++ L') := by
  have le := layout.le
  have le' := layout'.le
  obtain ⟨start, passes⟩ := first.out q p' rfl alive
  have goesOn : t.returns = false := first.past.2 ⟨q, p', rfl, alive⟩
  have middle := layout.leaves_place rfl
  -- What the second statement adds to a block stands behind what the first has put there.
  have joined : ∀ u lines, (u = q ∨ m ≤ u ∧ u < k) →
      lines = (if u = q then p' else []) ++ fragmentsOf (partsAt L' u) →
      lines = (if u = c then p else []) ++ fragmentsOf (partsAt (L ++ L') u) ∧
        ∀ x ∈ partsAt L u, x.Passes := by
    intro u lines place eq
    by_cases same : u = q
    · subst same
      rw [if_pos rfl, start] at eq
      exact ⟨by rw [eq]; simp, passes⟩
    · have empty := first.outside (u := u) (by omega) (by omega)
      have other : u ≠ c := by omega
      rw [if_neg same] at eq
      exact ⟨by simp [eq, empty, other], by simp [empty]⟩
  constructor
  case listed =>
    rw [List.map_append, first.listed, second.listed, Statement.parts_cons, goesOn,
      if_neg Bool.false_ne_true]
  case within =>
    intro a member
    obtain early | late := List.mem_append.1 member
    · have := first.within a early
      exact ⟨by omega, this.2⟩
    · have := second.within a late
      exact ⟨by omega, this.2⟩
  case inner =>
    intro u inside inner lines e has
    obtain inner | ⟨q', p'', out, inner⟩ := inner.split layout'
    · have away : u ≠ q := by
        rintro rfl
        exact inner.2 p' rfl
      have later := second.outside away (.inl (by have := inner.1; omega))
      simpa [later] using first.inner u inside inner lines e has
    · cases out
      obtain ⟨eq, closes⟩ := second.inner u inside inner lines e has
      obtain ⟨eq', passes'⟩ := joined u lines inner.1 eq
      rw [partsAt_append] at eq' ⊢
      exact ⟨eq', closes.prepend passes'⟩
  case out =>
    intro r pr out inside
    obtain ⟨eq, passes'⟩ := second.out r pr out inside
    have place := layout'.leaves_place out
    obtain ⟨eq', early⟩ := joined r pr place eq
    rw [partsAt_append] at eq' ⊢
    exact ⟨eq', List.forall_mem_append.2 ⟨early, passes'⟩⟩
  case past => rw [Statement.returns_cons, goesOn, Bool.false_or, second.past]

/-- Two statements in a row, when control does not get past the first. -/
theorem Stores.cons_returns {t : Statement} {rest : List Statement} {l : Option Location} {k : Nat}
    {R : Spot} (reached : g.Reached live) (first : g.Stores live t c p Q n m L)
    (layout : g.Layout t (some (c, p)) Q n m)
    (layout' : g.Layout (.sequence rest l) Q R m k) (below : c < n)
    (secluded : ∀ q p', Q = some (q, p') → g.Secluded q m k) (returns : t.returns = true) :
    g.Stores live (.sequence (t :: rest) l) c p R n k L := by
  have le := layout'.le
  have stops : ∀ q p', Q = some (q, p') → q ∉ 0 :: live := by
    intro q p' out inside
    have goesOn := first.past.2 ⟨q, p', out, inside⟩
    rw [returns] at goesOn
    cases goesOn
  -- Nothing of the second statement is reached.
  have dead : ∀ q p', Q = some (q, p') → ∀ u, u = q ∨ m ≤ u ∧ u < k → u ∉ 0 :: live := by
    intro q p' out u place
    have fresh := layout.leaves_below (by simpa [Spot.Below] using below) q p' out
    obtain rfl | later := place
    · exact stops u p' out
    · exact (secluded q p' out).dead reached fresh (stops q p' out) u later.1 later.2
  have nowhere : ∀ r pr, R = some (r, pr) → r ∉ 0 :: live := by
    intro r pr out inside
    cases eq : Q with
    | none =>
      rw [eq] at layout'
      cases out.symm.trans layout'.of_none.1
    | some spot =>
      obtain ⟨q, p'⟩ := spot
      rw [eq] at layout'
      exact dead q p' eq r (layout'.leaves_place out) inside
  constructor
  case listed => rw [first.listed, Statement.parts_cons, returns, if_pos rfl, List.append_nil]
  case within =>
    intro a member
    have := first.within a member
    exact ⟨by omega, this.2⟩
  case inner =>
    intro u inside inner lines e has
    obtain inner | ⟨q, p', out, inner⟩ := inner.split layout'
    · exact first.inner u inside inner lines e has
    · exact absurd inside (dead q p' out u inner.1)
  case out => exact fun r pr out inside => absurd inside (nowhere r pr out)
  case past =>
    rw [Statement.returns_cons, returns]
    simp only [Bool.true_or, Bool.true_eq_false, false_iff]
    intro past
    obtain ⟨r, pr, out, inside⟩ := past
    exact nowhere r pr out inside

/-! ## Ranges in ranges -/

theorem Secluded.mono {k : Nat} (secluded : g.Secluded c n k) (le : m ≤ k) : g.Secluded c n m :=
  fun w u low high => secluded w u low (by omega)

/-- What follows a statement is entered from where control leaves that statement. -/
theorem Secluded.behind {q k : Nat} {p' : List String} (secluded : g.Secluded c n k) (sound : g.Sound)
    (layout : g.Layout s (some (c, p)) Q n m) (below : c < n) (out : Q = some (q, p')) :
    g.Secluded q m k := by
  intro w u low high less arc
  have le := layout.le
  by_cases late : m ≤ w
  · exact .inr late
  · have early := secluded w u (by omega) high less arc
    obtain inner | ⟨p'', out'⟩ := inner_or_end (u := w) (c := c) (n := n) (m := m) (by omega) Q
    · have := layout.arc_inside sound below inner arc
      omega
    · rw [out] at out'
      cases out'
      exact .inl rfl

/-- A range inside another one, if no arc leads into it past its first block. -/
theorem Secluded.inside {t k : Nat} (secluded : g.Secluded c n m) (low : n ≤ t) (high : k ≤ m)
    (away : ∀ w, w = c ∨ n ≤ w ∧ w < t → ∀ u, t < u → u < k → ¬ g.Arc w (some u)) :
    g.Secluded t (t + 1) k := by
  intro w u after before less arc
  by_cases late : t ≤ w
  · omega
  · have early := secluded w u (by omega) (by omega) less arc
    exact absurd arc (away w (by omega) u (by omega) before)

/-- The blocks behind the header of a loop are entered from the header only. -/
theorem Secluded.loop {k r : Nat} {header : List String} (sound : g.Sound)
    (secluded : g.Secluded c n k) (ends : g.Has c lines (.goes (some n)))
    (has : g.Has n header (.loops (some (n + 1)) (some r))) (high : m ≤ k) (past : m ≤ r) :
    g.Secluded (n + 1) (n + 2) m := by
  apply secluded.inside (by omega) high
  intro w place u after before
  obtain rfl | rfl : w = c ∨ w = n := by omega
  · rw [ends.arc_iff sound]
    simp [Ending.targets]
    omega
  · rw [has.arc_iff sound]
    simp [Ending.targets]
    omega

/-- The header of an `if` leads to the first blocks of the arms only. -/
theorem Has.not_arc_branches {w : Nat} (sound : g.Sound)
    (ends : g.Has c lines (.branches (some n) (some m))) (other : w ≠ n) (other' : w ≠ m) :
    ¬ g.Arc c (some w) := by
  rw [ends.arc_iff sound]
  simp [Ending.targets, other, other']

section Arm

variable {t k r w v : Nat} (sound : g.Sound) (layout : g.Layout s (some (t, [])) Q (t + 1) k)
  (place : t ≤ w ∧ w < k) (arc : g.Arc w (some v))

include sound layout place arc

/-- Control goes from the blocks of an arm to each other, or to where the arm leads. -/
theorem Layout.arm_targets (meets : g.Joins Q (some r)) : t < v ∧ v < k ∨ v = r := by
  obtain inner | ⟨p, out⟩ := inner_or_end (u := w) (c := t) (n := t + 1) (m := k) (by omega) Q
  · have := layout.arc_inside sound (by omega) inner arc
    omega
  · obtain ⟨lines, e, has, target⟩ := arc
    obtain ⟨-, rfl⟩ := (meets w p out).unique sound has
    simp only [Ending.targets, List.mem_singleton, Option.some.injEq] at target
    exact .inr target

/-- An arc that leads out of an arm shows that control gets past it. -/
theorem Stores.past_of_arc (stores : g.Stores live s t [] Q (t + 1) k L) (inside : w ∈ 0 :: live)
    (behind : k ≤ v) : s.returns = false := by
  obtain inner | ⟨p, out⟩ := inner_or_end (u := w) (c := t) (n := t + 1) (m := k) (by omega) Q
  · have := layout.arc_inside sound (by omega) inner arc
    omega
  · exact stores.past.2 ⟨w, p, out, inside⟩

end Arm

/-- Each arm of an `if` is entered at its first block. -/
theorem Secluded.arms {r : Nat} (secluded : g.Secluded c n (r + 1)) (sound : g.Sound)
    (ends : g.Has c lines (.branches (some n) (some m)))
    (consequent : g.Layout s (some (n, [])) Q (n + 1) m) (meets : g.Joins Q (some r))
    (le : m ≤ r) : g.Secluded n (n + 1) m ∧ g.Secluded m (m + 1) r := by
  have le' := consequent.le
  constructor
  · apply secluded.inside (Nat.le_refl n) (by omega)
    intro w place u after before
    obtain rfl : w = c := by omega
    exact ends.not_arc_branches sound (by omega) (by omega)
  · apply secluded.inside (by omega) (by omega)
    intro w place u after before
    obtain rfl | place := place
    · exact ends.not_arc_branches sound (by omega) (by omega)
    · -- The first arm leads behind the second one.
      intro arc
      have := consequent.arm_targets sound place arc meets
      omega

/-! ## Statements without control flow -/

theorem stores_simple {ts : List String} {l : Option Location} (alive : c ∈ 0 :: live) :
    g.Stores live (.simple ts l) c p (some (c, p ++ Fragment.statement ts)) n n
      [(c, .simple ts)] where
  listed := rfl
  within := by simpa using alive
  inner u _ inner := absurd inner not_inner
  out q p' out _ := by
    cases out
    simp [partsAt_cons, Part.fragments, Part.passes_simple]
  past := by
    simp only [Statement.returns, true_iff]
    exact ⟨c, _, rfl, alive⟩

theorem stores_ret {ts : List String} {l : Option Location} (sound : g.Sound)
    (ends : g.Has c (p ++ Fragment.statement ts) .returns) (alive : c ∈ 0 :: live) :
    g.Stores live (.ret ts l) c p none n n [(c, .ret ts)] where
  listed := rfl
  within := by simpa using alive
  inner u _ inner lines e has := by
    obtain rfl | range := inner.1
    · obtain ⟨rfl, rfl⟩ := ends.unique sound has
      rw [partsAt_cons, if_pos rfl, if_pos rfl, partsAt_nil, List.append_nil]
      exact ⟨by simp [Part.fragments], @Closes.returns g [] ts (by simp)⟩
    · omega
  out := by simp
  past := by simp [Statement.returns]

theorem stores_nil {l : Option Location} (alive : c ∈ 0 :: live) :
    g.Stores live (.sequence [] l) c p (some (c, p)) n n [] where
  listed := rfl
  within := by simp
  inner u _ inner := absurd inner not_inner
  out q p' out _ := by
    cases out
    simp
  past := by
    simp only [Statement.returns_nil, true_iff]
    exact ⟨c, p, rfl, alive⟩

/-! ## Statements with control flow -/

/-- The arms of an `if` meet in a block that control gets to if it gets past one of them. -/
theorem Stores.reached_join {a t : Statement} {r : Nat} {Q' : Spot} (sound : g.Sound)
    (reached : g.Reached live) (ends : g.Has c lines (.branches (some n) (some m)))
    (consequent : g.Layout a (some (n, [])) Q (n + 1) m) (meets : g.Joins Q (some r))
    (alternate : g.Layout t (some (m, [])) Q' (m + 1) r) (meets' : g.Joins Q' (some r))
    (first : g.Stores live a n [] Q (n + 1) m L) (second : g.Stores live t m [] Q' (m + 1) r L')
    (secluded : g.Secluded c n (r + 1)) :
    r ∈ 0 :: live ↔ a.returns = false ∨ t.returns = false := by
  have le := consequent.le
  have le' := alternate.le
  constructor
  · -- What leads to the join tells which arm control gets past.
    intro here
    have other : r ≠ 0 := by omega
    obtain ⟨w, source, less, arc⟩ := reached.entered r (List.mem_of_ne_of_mem other here)
    obtain rfl | inside := secluded w r (by omega) (by omega) less arc
    · exact absurd arc (ends.not_arc_branches sound (by omega) (by omega))
    · by_cases early : w < m
      · exact .inl (first.past_of_arc sound consequent (by omega) arc source (by omega))
      · exact .inr (second.past_of_arc sound alternate (by omega) arc source (by omega))
  · intro goesOn
    obtain goesOn | goesOn := goesOn
    · obtain ⟨q, p', out, inside⟩ := first.past.1 goesOn
      exact reached.target inside (meets q p' out) (List.mem_singleton_self _)
    · obtain ⟨q, p', out, inside⟩ := second.past.1 goesOn
      exact reached.target inside (meets' q p' out) (List.mem_singleton_self _)

/-- The blocks of an `if`: the header, which ends the block in which control comes, and both arms. -/
theorem Stores.branch {a : Statement} {b : Option Statement} {cond : List String}
    {l : Option Location} {r : Nat} {Q' : Spot} (sound : g.Sound) (reached : g.Reached live)
    (ends : g.Has c (p ++ Fragment.ifHeader cond) (.branches (some n) (some m)))
    (consequent : g.Layout a (some (n, [])) Q (n + 1) m) (meets : g.Joins Q (some r))
    (alternate : g.Layout (.orElse b) (some (m, [])) Q' (m + 1) r) (meets' : g.Joins Q' (some r))
    (first : g.Stores live a n [] Q (n + 1) m L)
    (second : g.Stores live (.orElse b) m [] Q' (m + 1) r L')
    (secluded : g.Secluded c n (r + 1)) (below : c < n) (alive : c ∈ 0 :: live) :
    g.Stores live (.branch cond a b l) c p (some (r, [])) n (r + 1)
      ((c, .branch cond a b) :: (L ++ L')) := by
  have le := consequent.le
  have le' := alternate.le
  have header : ∀ u, partsAt ((c, .branch cond a b) :: (L ++ L')) u =
      (if c = u then [.branch cond a b] else []) ++ (partsAt L u ++ partsAt L' u) := by
    intro u
    rw [partsAt_cons, partsAt_append]
  constructor
  case listed =>
    rw [List.map_cons, List.map_append, first.listed, second.listed, Statement.parts_branch]
  case within =>
    intro x member
    obtain rfl | member := List.mem_cons.1 member
    · exact ⟨.inl rfl, alive⟩
    · obtain early | late := List.mem_append.1 member
      · have := first.within x early
        exact ⟨by omega, this.2⟩
      · have := second.within x late
        exact ⟨by omega, this.2⟩
  case inner =>
    intro u inside inner lines e has
    rw [header]
    obtain rfl | blocks := @Inner.branch c n m u Q r Q' inner
    · obtain ⟨rfl, rfl⟩ := ends.unique sound has
      rw [if_pos rfl, if_pos rfl, first.outside (by omega) (by omega),
        second.outside (by omega) (by omega), List.append_nil, List.append_nil]
      refine ⟨by simp [Part.fragments], ?_⟩
      have forks : g.Forks a b n m := ⟨by omega, r, by omega, consequent.arm meets,
        alternate.arm meets', consequent.contained sound meets, alternate.contained sound meets'⟩
      exact @Closes.branches g [] a b n m cond (by simp) forks
    · -- The blocks of the arms are apart, and the header is in neither.
      obtain thenArm | elseArm := blocks
      · have place := consequent.place thenArm
        rw [if_neg (by omega), if_neg (by omega), second.outside (by omega) (by omega),
          List.nil_append, List.nil_append, List.append_nil]
        exact first.holds sound meets inside thenArm has
      · have place := alternate.place elseArm
        rw [if_neg (by omega), if_neg (by omega), first.outside (by omega) (by omega),
          List.nil_append, List.nil_append, List.nil_append]
        exact second.holds sound meets' inside elseArm has
  case out =>
    intro q p' out inside
    cases out
    rw [header, if_neg (by omega), if_neg (by omega), first.outside (by omega) (by omega),
      second.outside (by omega) (by omega)]
    simp
  case past =>
    rw [Statement.returns_branch, Bool.and_eq_false_iff, ← Stores.reached_join sound reached ends
      consequent meets alternate meets' first second secluded]
    constructor
    · exact fun joined => ⟨r, [], rfl, joined⟩
    · rintro ⟨q, p', out, joined⟩
      cases out
      exact joined

/-- The blocks of a `while` loop: the header has its own block. -/
theorem Stores.whileLoop {body : Statement} {cond : List String} {l : Option Location}
    (sound : g.Sound) (reached : g.Reached live) (ends : g.Has c p (.goes (some n)))
    (header : g.Has n (Fragment.whileHeader cond) (.loops (some (n + 1)) (some m)))
    (inside : g.Layout body (some (n + 1, [])) Q (n + 2) m) (back : g.Joins Q (some n))
    (stores : g.Stores live body (n + 1) [] Q (n + 2) m L) (below : c < n)
    (alive : c ∈ 0 :: live) :
    g.Stores live (.whileLoop cond body l) c p (some (m, [])) n (m + 1)
      ((n, .whileHeader cond body) :: L) := by
  have le := inside.le
  have first := reached.target alive ends (List.mem_singleton_self _)
  have behind : m ∈ 0 :: live := reached.target first header (by simp [Ending.targets])
  have enters : g.Arm (Part.whileHeader cond body).inside (n + 1) m n := inside.arm back
  constructor
  case listed => simp [stores.listed, Statement.parts]
  case within =>
    intro x member
    obtain rfl | member := List.mem_cons.1 member
    · exact ⟨.inr (by simp; omega), first⟩
    · have := stores.within x member
      exact ⟨by omega, this.2⟩
  case inner =>
    intro u reached inner lines e has
    rw [partsAt_cons]
    obtain rfl | rfl | blocks := inner.loop (Q := Q)
    · obtain ⟨rfl, rfl⟩ := ends.unique sound has
      rw [if_pos rfl, if_neg (by omega), stores.outside (by omega) (by omega)]
      exact ⟨by simp, .goes (by simp)⟩
    · obtain ⟨rfl, rfl⟩ := header.unique sound has
      rw [if_neg (by omega), if_pos rfl, stores.outside (by omega) (by omega)]
      exact ⟨by simp [Part.fragments], @Closes.loops g [] _ _ _ _ _ (by simp) rfl enters⟩
    · have place := inside.place blocks
      rw [if_neg (by omega), if_neg (by omega), List.nil_append, List.nil_append]
      exact stores.holds sound back reached blocks has
  case out =>
    intro q p' out _
    cases out
    rw [partsAt_cons, if_neg (by omega), if_neg (by omega), stores.outside (by omega) (by omega)]
    simp
  case past =>
    simp only [Statement.returns, true_iff]
    exact ⟨m, [], rfl, behind⟩

/-- The block for the last clause of a `for` loop is reached from the body only. -/
theorem Stores.reached_update {body : Statement} (sound : g.Sound) (reached : g.Reached live)
    (ends : g.Has c lines (.goes (some n))) {header : List String}
    (loops : g.Has n header (.loops (some (n + 1)) (some (m + 1))))
    (inside : g.Layout body (some (n + 1, [])) Q (n + 2) m) (meets : g.Joins Q (some m))
    (stores : g.Stores live body (n + 1) [] Q (n + 2) m L) (secluded : g.Secluded c n (m + 2)) :
    m ∈ 0 :: live ↔ body.returns = false := by
  have le := inside.le
  constructor
  · intro here
    have other : m ≠ 0 := by omega
    obtain ⟨w, source, less, arc⟩ := reached.entered m (List.mem_of_ne_of_mem other here)
    have place := secluded w m (by omega) (by omega) less arc
    by_cases early : w = c ∨ w = n
    · obtain rfl | rfl := early
      · rw [ends.arc_iff sound] at arc
        simp [Ending.targets] at arc
        omega
      · rw [loops.arc_iff sound] at arc
        simp [Ending.targets] at arc
        omega
    · exact stores.past_of_arc sound inside (by omega) arc source (Nat.le_refl m)
  · intro goesOn
    obtain ⟨q, p', out, source⟩ := stores.past.1 goesOn
    exact reached.target source (meets q p' out) (List.mem_singleton_self _)

/-- The blocks of a `for` loop: its header has its own block, and so has its last clause, if control
gets past the body. -/
theorem Stores.forLoop {body : Statement} {init update : Option (List String)} {cond : List String}
    {l : Option Location} (sound : g.Sound) (reached : g.Reached live)
    (ends : g.Has c (p ++ clauseLines init) (.goes (some n)))
    (header : g.Has n (Fragment.forHeader cond) (.loops (some (n + 1)) (some (m + 1))))
    (inside : g.Layout body (some (n + 1, [])) Q (n + 2) m) (meets : g.Joins Q (some m))
    (back : g.Has m (clauseLines update) (.goes (some n)))
    (stores : g.Stores live body (n + 1) [] Q (n + 2) m L) (secluded : g.Secluded c n (m + 2))
    (below : c < n) (alive : c ∈ 0 :: live) :
    g.Stores live (.forLoop init cond update body l) c p (some (m + 1, [])) n (m + 2)
      ((init.toList.map .clause).map (c, ·) ++ (n, .forHeader cond body update) :: L ++
        (if body.returns then [] else update.toList.map .clause).map (m, ·)) := by
  have le := inside.le
  have first := reached.target alive ends (List.mem_singleton_self _)
  have behind : m + 1 ∈ 0 :: live := reached.target first header (by simp [Ending.targets])
  have enters : g.Arm (Part.forHeader cond body update).inside (n + 1) (m + 1) m :=
    (inside.arm meets).update back (by omega)
  have last : m ∈ 0 :: live ↔ body.returns = false :=
    stores.reached_update sound reached ends header inside meets secluded
  have clauses : ∀ clause : Option (List String), ∀ x ∈ clause.toList.map Part.clause, x.Passes := by
    intro clause x member
    obtain ⟨tokens, -, rfl⟩ := List.mem_map.1 member
    exact Part.passes_clause tokens
  constructor
  case listed => simp [stores.listed, Statement.parts, Function.comp_def]
  case within =>
    intro x member
    obtain member | member := List.mem_append.1 member
    · obtain member | member := List.mem_append.1 member
      · obtain ⟨part, -, rfl⟩ := List.mem_map.1 member
        exact ⟨.inl rfl, alive⟩
      · obtain rfl | member := List.mem_cons.1 member
        · exact ⟨.inr (by simp; omega), first⟩
        · have := stores.within x member
          exact ⟨by omega, this.2⟩
    · obtain ⟨part, member, rfl⟩ := List.mem_map.1 member
      split at member
      case isTrue => cases member
      case isFalse goesOn => exact ⟨.inr (by simp; omega), last.2 (by simpa using goesOn)⟩
  case inner =>
    intro u inside' inner lines e has
    rw [partsAt_append, partsAt_append, partsAt_cons, partsAt_map, partsAt_map]
    obtain rfl | inner := inner.update
    · -- The block of the last clause.
      obtain ⟨rfl, rfl⟩ := back.unique sound has
      rw [if_neg (by omega), if_neg (by omega), if_neg (by omega), if_pos rfl,
        stores.outside (by omega) (by omega), last.1 inside']
      simp only [List.nil_append, Bool.false_eq_true, if_false, fragmentsOf_clauses, true_and]
      exact .goes (clauses update)
    · rw [if_neg (c := m = u) (by rintro rfl; exact inner.2 [] rfl), List.append_nil]
      obtain rfl | rfl | blocks := inner.loop (Q := Q)
      · -- The first clause stands behind what was in the block before the loop.
        obtain ⟨rfl, rfl⟩ := ends.unique sound has
        rw [if_pos rfl, if_pos rfl, if_neg (by omega), stores.outside (by omega) (by omega)]
        simp only [List.append_nil, fragmentsOf_clauses, true_and]
        exact .goes (clauses init)
      · obtain ⟨rfl, rfl⟩ := header.unique sound has
        rw [if_neg (by omega), if_neg (by omega), if_pos rfl, stores.outside (by omega) (by omega)]
        exact ⟨by simp [Part.fragments], @Closes.loops g [] _ _ _ _ _ (by simp) rfl enters⟩
      · have place := inside.place blocks
        rw [if_neg (by omega), if_neg (by omega), if_neg (by omega), List.nil_append,
          List.nil_append, List.nil_append]
        exact stores.holds sound meets inside' blocks has
  case out =>
    intro q p' out _
    cases out
    rw [partsAt_append, partsAt_append, partsAt_cons, partsAt_map, partsAt_map, if_neg (by omega),
      if_neg (by omega), if_neg (by omega), if_neg (by omega), stores.outside (by omega) (by omega)]
    simp
  case past =>
    simp only [Statement.returns, true_iff]
    exact ⟨m + 1, [], rfl, behind⟩

/-- The parts of a statement can be listed with the blocks that they are written to. -/
theorem Layout.stores (sound : g.Sound) (reached : g.Reached live) (layout : g.Layout s P Q n m)
    (start : P = some (c, p)) (below : c < n) (alive : c ∈ 0 :: live)
    (secluded : g.Secluded c n m) : ∃ L, g.Stores live s c p Q n m L := by
  induction layout generalizing c p with
  | skip => cases start
  | simple =>
    cases start
    exact ⟨_, stores_simple alive⟩
  | ret ends =>
    cases start
    exact ⟨_, stores_ret sound ends alive⟩
  | nil =>
    subst start
    exact ⟨_, stores_nil alive⟩
  | @cons s rest l P Q R n m k first second ih₁ ih₂ =>
    subst start
    obtain ⟨L, stores⟩ := ih₁ rfl below alive (secluded.mono second.le)
    have behind : ∀ q p', Q = some (q, p') → g.Secluded q m k := fun q p' =>
      secluded.behind sound first below
    cases returns : s.returns with
    | true => exact ⟨L, stores.cons_returns reached first second below behind returns⟩
    | false =>
      obtain ⟨q, p', rfl, inside⟩ := stores.past.1 returns
      have fresh := first.leaves_below (by simpa [Spot.Below] using below) q p' rfl
      obtain ⟨L', stores'⟩ := ih₂ rfl fresh inside (behind q p' rfl)
      exact ⟨L ++ L', stores.cons stores' first second below inside⟩
  | @branch cond a b l c p n m r Q Q' ends consequent meets alternate meets' ih₁ ih₂ =>
    cases start
    have le := alternate.le
    obtain ⟨secluded₁, secluded₂⟩ := secluded.arms sound ends consequent meets (by omega)
    obtain ⟨L, stores⟩ := ih₁ rfl (by omega)
      (reached.target alive ends (by simp [Ending.targets])) secluded₁
    obtain ⟨L', stores'⟩ := ih₂ rfl (by omega)
      (reached.target alive ends (by simp [Ending.targets])) secluded₂
    exact ⟨_, stores.branch sound reached ends consequent meets alternate meets' stores' secluded
      below alive⟩
  | @whileLoop cond body l c p n m Q ends header inside back ih =>
    cases start
    have le := inside.le
    have first := reached.target alive ends (List.mem_singleton_self _)
    obtain ⟨L, stores⟩ := ih rfl (by omega)
      (reached.target first header (by simp [Ending.targets]))
      (secluded.loop sound ends header (by omega) (by omega))
    exact ⟨_, .whileLoop sound reached ends header inside back stores below alive⟩
  | @forLoop init cond update body l c p n m Q ends header inside meets back ih =>
    cases start
    have le := inside.le
    have first := reached.target alive ends (List.mem_singleton_self _)
    obtain ⟨L, stores⟩ := ih rfl (by omega)
      (reached.target first header (by simp [Ending.targets]))
      (secluded.loop sound ends header (by omega) (by omega))
    exact ⟨_, .forLoop sound reached ends header inside meets back stores secluded below alive⟩

/-- Where the parts of a function are: in the blocks that control can get to, which hold nothing
else. -/
theorem Draws.stores {f : SourceFunction} (draws : g.Draws f) (reached : g.Reached live) :
    ∃ L : List (Nat × Part), L.map (·.2) = f.body.parts ∧ (∀ a ∈ L, a.1 ∈ 0 :: live) ∧
      ∀ u ∈ 0 :: live, ∀ lines e, g.Has u lines e →
        lines = fragmentsOf (partsAt L u) ∧ g.Closes (partsAt L u) e := by
  obtain ⟨Q, layout, leaves⟩ := draws.layout
  have secluded : g.Secluded 0 1 g.table.length := by
    intro w u low high less arc
    omega
  obtain ⟨L, stores⟩ := layout.stores draws.sound reached rfl (by decide) List.mem_cons_self secluded
  refine ⟨L, stores.listed, fun a member => (stores.within a member).2, ?_⟩
  intro u inside lines e has
  have known := reached.below u inside
  exact stores.holds draws.sound leaves inside (inner_or_end (by omega) Q) has

end Graph

end Flowgraph
