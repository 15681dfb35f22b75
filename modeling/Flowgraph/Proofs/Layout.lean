import Flowgraph.Proofs.Endings
import Flowgraph.Proofs.Execution
import Flowgraph.Statement
import Flowgraph.Fragment

/-!
# Where a statement lies in a graph

`Layout g s P Q n m` says that `g` holds the blocks of the statement `s`.  Blocks are named by
their numbers.  Control comes to the statement at the spot `P` and leaves it at the spot `Q`:
a spot is a block with the fragments that it holds so far, and there is none behind a return.
The statement takes up the numbers from `n` to below `m`, in addition to the block in which it
starts.

Everything that is said about a grown graph is read off its layout.  `Layout.mono` lets a
layout outlive the growth of what comes later.
-/

namespace Flowgraph

/-- Where control is between two statements: in a numbered block behind some fragments, or
nowhere after a return. -/
abbrev Spot := Option (Nat × List String)

/-- The spot is in a block with a number below `n`, if anywhere. -/
def Spot.Below (P : Spot) (n : Nat) : Prop := ∀ i p, P = some (i, p) → i < n

namespace Graph

/-- The handle `h` stands for the block with the given number, or for the exit. -/
def Place (g : Graph) (h : Nat) : Option Nat → Prop
  | none => h = exit
  | some i => g.table[i]? = some h

/-- Block number `i` is finished: it holds exactly these fragments and ends as said. -/
def Has (g : Graph) (i : Nat) (lines : List String) (e : Ending (Option Nat)) : Prop :=
  ∃ h f, g.table[i]? = some h ∧ g.core? h = some (Ending.block f (some i) lines) ∧
    f.Rel g.Place e

/-- Block number `i` holds these fragments first. -/
def Begins (g : Graph) (i : Nat) (lines : List String) : Prop :=
  ∃ h x, g.table[i]? = some h ∧ g.core? h = some x ∧ lines <+: x.lines

/-- Control that has come to the spot goes on to the place `k`. -/
def Joins (g : Graph) (P : Spot) (k : Option Nat) : Prop :=
  ∀ i p, P = some (i, p) → g.Has i p (.goes k)

/-- The blocks of a statement. -/
inductive Layout (g : Graph) : Statement → Spot → Spot → Nat → Nat → Prop where
  /-- What control does not come to is not grown. -/
  | skip {s n} : Layout g s none none n n
  | simple {ts l c p n} (begins : g.Begins c (p ++ Fragment.statement ts)) :
      Layout g (.simple ts l) (some (c, p)) (some (c, p ++ Fragment.statement ts)) n n
  | ret {ts l c p n} (ends : g.Has c (p ++ Fragment.statement ts) .returns) :
      Layout g (.ret ts l) (some (c, p)) none n n
  | nil {l P n} : Layout g (.sequence [] l) P P n n
  | cons {s rest l P Q R n m k} (first : Layout g s P Q n m)
      (second : Layout g (.sequence rest l) Q R m k) : Layout g (.sequence (s :: rest) l) P R n k
  /-- The arms start at blocks `n` and `m` and meet again in block `r`. -/
  | branch {cond a b l c p n m r Q Q'}
      (ends : g.Has c (p ++ Fragment.ifHeader cond) (.branches (some n) (some m)))
      (consequent : Layout g a (some (n, [])) Q (n + 1) m) (meets : g.Joins Q (some r))
      (alternate : Layout g (b.getD (.sequence [] none)) (some (m, [])) Q' (m + 1) r)
      (meets' : g.Joins Q' (some r)) :
      Layout g (.branch cond a b l) (some (c, p)) (some (r, [])) n (r + 1)
  /-- The header is block `n`, and control goes on in block `m`. -/
  | whileLoop {cond body l c p n m Q} (ends : g.Has c p (.goes (some n)))
      (header : g.Has n (Fragment.whileHeader cond) (.loops (some (n + 1)) (some m)))
      (inside : Layout g body (some (n + 1, [])) Q (n + 2) m) (back : g.Joins Q (some n)) :
      Layout g (.whileLoop cond body l) (some (c, p)) (some (m, [])) n (m + 1)
  /-- The header is block `n`, the update block `m`, and control goes on in block `m + 1`. -/
  | forLoop {init cond update body l c p n m Q}
      (ends : g.Has c (p ++ clauseLines init) (.goes (some n)))
      (header : g.Has n (Fragment.forHeader cond) (.loops (some (n + 1)) (some (m + 1))))
      (inside : Layout g body (some (n + 1, [])) Q (n + 2) m) (meets : g.Joins Q (some m))
      (back : g.Has m (clauseLines update) (.goes (some n))) :
      Layout g (.forLoop init cond update body l) (some (c, p)) (some (m + 1, [])) n (m + 2)

variable {g g' : Graph} {i n m : Nat} {P Q : Spot} {s : Statement} {lines : List String}
  {e : Ending (Option Nat)} {k : Option Nat}

@[simp] theorem joins_none : g.Joins none k := by
  simp [Joins]

@[simp] theorem joins_some {p : List String} : g.Joins (some (i, p)) k ↔ g.Has i p (.goes k) := by
  simp [Joins]

/-! ## The numbers of a layout -/

namespace Layout

theorem le (layout : g.Layout s P Q n m) : n ≤ m := by
  induction layout <;> omega

/-- Where control does not come to, nothing is grown. -/
theorem of_none (layout : g.Layout s none Q n m) : Q = none ∧ m = n := by
  generalize start : (none : Spot) = P at layout
  induction layout with
  | skip | nil => exact ⟨start.symm ▸ rfl, rfl⟩
  | simple | ret | branch | whileLoop | forLoop => cases start
  | cons first second ih₁ ih₂ =>
    obtain ⟨rfl, rfl⟩ := ih₁ start
    exact ih₂ start

/-- Control leaves a statement in the block in which it came or in one of the new blocks. -/
theorem leaves (layout : g.Layout s P Q n m) {q : Nat} {p : List String} (out : Q = some (q, p)) :
    (∃ p', P = some (q, p')) ∨ n ≤ q ∧ q < m := by
  induction layout generalizing q p with
  | skip => cases out
  | simple => cases out; exact .inl ⟨_, rfl⟩
  | ret => cases out
  | nil => exact .inl ⟨p, out⟩
  | cons first second ih₁ ih₂ =>
    have le₁ := first.le
    have le₂ := second.le
    obtain ⟨p', eq⟩ | new := ih₂ out
    · obtain same | new := ih₁ eq
      · exact .inl same
      · exact .inr (by omega)
    · exact .inr (by omega)
  | branch ends consequent meets alternate meets' =>
    have le₁ := consequent.le
    have le₂ := alternate.le
    cases out
    exact .inr (by omega)
  | whileLoop ends header inside back =>
    have le₁ := inside.le
    cases out
    exact .inr (by omega)
  | forLoop ends header inside meets back =>
    have le₁ := inside.le
    cases out
    exact .inr (by omega)

/-- Control leaves an arm in one of its own blocks. -/
theorem arm_leaves (layout : g.Layout s (some (n, [])) Q (n + 1) m) {q : Nat} {p : List String}
    (out : Q = some (q, p)) : n ≤ q ∧ q < m := by
  have le := layout.le
  obtain ⟨p', same⟩ | new := layout.leaves out
  · cases same
    omega
  · omega

/-- Control leaves a statement in the block in which it came, or in the last of the new ones. -/
theorem leaves_last (layout : g.Layout s P Q n m) {i : Nat} {q : List String}
    (out : Q = some (i, q)) : (∃ p, P = some (i, p)) ∧ n = m ∨ i + 1 = m := by
  induction layout generalizing i q with
  | skip => cases out
  | simple =>
    cases out
    exact .inl ⟨⟨_, rfl⟩, rfl⟩
  | ret => cases out
  | nil => exact .inl ⟨⟨q, out⟩, rfl⟩
  | cons first second ih₁ ih₂ =>
    obtain ⟨⟨p, middle⟩, rfl⟩ | last := ih₂ out
    · exact ih₁ middle
    · exact .inr last
  | branch | whileLoop | forLoop =>
    cases out
    exact .inr rfl

theorem leaves_below (layout : g.Layout s P Q n m) (below : P.Below n) : Q.Below m := by
  intro i p out
  have le := layout.le
  obtain ⟨p', eq⟩ | new := layout.leaves out
  · have := below i p' eq
    omega
  · exact new.2

end Layout

/-! ## Growing on -/

theorem Place.mono {h : Nat} {p : Option Nat} (place : g.Place h p)
    (table : g.table <+: g'.table) : g'.Place h p := by
  cases p with
  | none => exact place
  | some i =>
    obtain ⟨later, eq⟩ := table
    have known : i < g.table.length := (List.getElem?_eq_some_iff.1 place).1
    rw [Place, ← eq, List.getElem?_append_left known]
    exact place

theorem Has.mono (has : g.Has i lines e) (table : g.table <+: g'.table)
    (same : ∀ h, g.table[i]? = some h → g'.core? h = g.core? h) : g'.Has i lines e := by
  obtain ⟨h, f, named, core, rel⟩ := has
  exact ⟨h, f, Place.mono (p := some i) named table, (same h named).trans core,
    rel.mono fun _ _ place => place.mono table⟩

theorem Begins.mono (begins : g.Begins i lines) (table : g.table <+: g'.table)
    (same : ∀ h, g.table[i]? = some h → g'.core? h = g.core? h) : g'.Begins i lines := by
  obtain ⟨h, x, named, core, starts⟩ := begins
  exact ⟨h, x, Place.mono (p := some i) named table, (same h named).trans core, starts⟩

theorem Joins.mono (joins : g.Joins P k) (table : g.table <+: g'.table)
    (same : ∀ i p h, P = some (i, p) → g.table[i]? = some h → g'.core? h = g.core? h) :
    g'.Joins P k := by
  intro i p eq
  exact (joins i p eq).mono table fun h => same i p h eq

namespace Layout

/-- A layout stays when all its blocks do. -/
theorem mono_of_same (layout : g.Layout s P Q n m) (table : g.table <+: g'.table)
    (same : ∀ i h, g.table[i]? = some h → (∃ p, P = some (i, p)) ∨ n ≤ i ∧ i < m →
      g'.core? h = g.core? h) : g'.Layout s P Q n m := by
  induction layout with
  | skip => exact .skip
  | simple begins => exact .simple (begins.mono table fun h named => same _ h named (.inl ⟨_, rfl⟩))
  | ret has => exact .ret (has.mono table fun h named => same _ h named (.inl ⟨_, rfl⟩))
  | nil => exact .nil
  | cons first second ih₁ ih₂ =>
    have le₁ := first.le
    have le₂ := second.le
    refine .cons (ih₁ fun i h named inside => ?_) (ih₂ fun i h named inside => ?_)
    · exact same i h named (inside.imp_right fun _ => by omega)
    · refine same i h named ?_
      obtain ⟨p, eq⟩ | new := inside
      · exact (first.leaves eq).imp_right fun _ => by omega
      · exact .inr (by omega)
  | @branch cond a b l c p n m r Q Q' has consequent meets alternate meets' ih₁ ih₂ =>
    have le₁ := consequent.le
    have le₂ := alternate.le
    have fixed : ∀ i h, g.table[i]? = some h → n ≤ i ∧ i < r → g'.core? h = g.core? h :=
      fun i h named inside => same i h named (.inr (by omega))
    refine .branch (has.mono table fun h named => same c h named (.inl ⟨p, rfl⟩))
      (ih₁ fun i h named inside => ?_) (meets.mono table fun i p h out named => ?_)
      (ih₂ fun i h named inside => ?_) (meets'.mono table fun i p h out named => ?_)
    · exact fixed i h named (by simp at inside; omega)
    · have := consequent.arm_leaves out
      exact fixed i h named (by omega)
    · exact fixed i h named (by simp at inside; omega)
    · have := alternate.arm_leaves out
      exact fixed i h named (by omega)
  | @whileLoop cond body l c p n m Q has header inside back ih =>
    have le := inside.le
    have fixed : ∀ i h, g.table[i]? = some h → n ≤ i ∧ i < m → g'.core? h = g.core? h :=
      fun i h named inside => same i h named (.inr (by omega))
    refine .whileLoop (has.mono table fun h named => same c h named (.inl ⟨p, rfl⟩))
      (header.mono table fun h named => fixed n h named (by omega))
      (ih fun i h named within => ?_) (back.mono table fun i p h out named => ?_)
    · exact fixed i h named (by simp at within; omega)
    · have := inside.arm_leaves out
      exact fixed i h named (by omega)
  | @forLoop init cond update body l c p n m Q has header inside meets back ih =>
    have le := inside.le
    have fixed : ∀ i h, g.table[i]? = some h → n ≤ i ∧ i < m + 1 → g'.core? h = g.core? h :=
      fun i h named inside => same i h named (.inr (by omega))
    refine .forLoop (has.mono table fun h named => same c h named (.inl ⟨p, rfl⟩))
      (header.mono table fun h named => fixed n h named (by omega))
      (ih fun i h named within => ?_) (meets.mono table fun i p h out named => ?_)
      (back.mono table fun h named => fixed m h named (by omega))
    · exact fixed i h named (by simp at within; omega)
    · have := inside.arm_leaves out
      exact fixed i h named (by omega)

/-- An arm stays with the way out of it. -/
theorem arm_mono (layout : g.Layout s (some (n, [])) Q (n + 1) m) (meets : g.Joins Q k)
    (table : g.table <+: g'.table)
    (same : ∀ i h, g.table[i]? = some h → n ≤ i ∧ i < m → g'.core? h = g.core? h) :
    g'.Layout s (some (n, [])) Q (n + 1) m ∧ g'.Joins Q k := by
  have le := layout.le
  constructor
  · refine layout.mono_of_same table fun i h named inside => same i h named ?_
    simp at inside
    omega
  · exact meets.mono table fun i p h out named => same i h named (layout.arm_leaves out)

/-- A layout stays when its blocks do, and when the block in which control leaves the statement
keeps what it begins with. -/
theorem mono (layout : g.Layout s P Q n m) (below : P.Below n)
    (table : g.table <+: g'.table)
    (same : ∀ i h, g.table[i]? = some h → (∃ p, P = some (i, p)) ∨ n ≤ i ∧ i < m →
      (∀ p, Q ≠ some (i, p)) → g'.core? h = g.core? h)
    (ends : ∀ i p, Q = some (i, p) → ∀ lines, g.Begins i lines → g'.Begins i lines) :
    g'.Layout s P Q n m := by
  induction layout with
  | skip => exact .skip
  | simple begins => exact .simple (ends _ _ rfl _ begins)
  | ret has =>
    exact .ret (has.mono table fun h named => same _ h named (.inl ⟨_, rfl⟩) (by simp))
  | nil => exact .nil
  | @cons s rest l P Q R n m k first second ih₁ ih₂ =>
    have le₁ := first.le
    have le₂ := second.le
    -- The block between the two parts is either finished by the second part or the last one.
    refine .cons (ih₁ below ?_ ?_) (ih₂ (first.leaves_below below) ?_ ends)
    · intro i h named inside stays
      refine same i h named (inside.imp_right fun _ => by omega) fun p out => ?_
      obtain ⟨p', eq⟩ | new := second.leaves out
      · exact stays p' eq
      · obtain ⟨p', eq⟩ | old := inside
        · have := below i p' eq
          omega
        · omega
    · intro i p out lines begins
      by_cases last : ∃ p, R = some (i, p)
      · obtain ⟨p', eq⟩ := last
        exact ends i p' eq lines begins
      · refine begins.mono table fun h named => same i h named ?_ fun p' eq => last ⟨p', eq⟩
        exact (first.leaves out).imp_right fun _ => by omega
    · intro i h named inside
      refine same i h named ?_
      obtain ⟨p, eq⟩ | new := inside
      · exact (first.leaves eq).imp_right fun _ => by omega
      · exact .inr (by omega)
  -- Of the other statements every block is finished but the one in which control goes on.
  | @branch cond a b l c p n m r Q Q' has consequent meets alternate meets' =>
    have le₁ := consequent.le
    have le₂ := alternate.le
    have old : c < n := below c p rfl
    have fixed : ∀ i h, g.table[i]? = some h → n ≤ i ∧ i < r → g'.core? h = g.core? h :=
      fun i h named inside => same i h named (.inr (by omega)) (by simp; omega)
    have has' := has.mono table fun h named => same c h named (.inl ⟨p, rfl⟩) (by simp; omega)
    obtain ⟨thenArm, leaves⟩ :=
      consequent.arm_mono meets table fun i h named inside => fixed i h named (by omega)
    obtain ⟨elseArm, leaves'⟩ :=
      alternate.arm_mono meets' table fun i h named inside => fixed i h named (by omega)
    exact .branch has' thenArm leaves elseArm leaves'
  | @whileLoop cond body l c p n m Q has header inside back =>
    have le := inside.le
    have old : c < n := below c p rfl
    have fixed : ∀ i h, g.table[i]? = some h → n ≤ i ∧ i < m → g'.core? h = g.core? h :=
      fun i h named inside => same i h named (.inr (by omega)) (by simp; omega)
    have has' := has.mono table fun h named => same c h named (.inl ⟨p, rfl⟩) (by simp; omega)
    have header' := header.mono table fun h named => fixed n h named (by omega)
    obtain ⟨looped, leaves⟩ :=
      inside.arm_mono back table fun i h named inside => fixed i h named (by omega)
    exact .whileLoop has' header' looped leaves
  | @forLoop init cond update body l c p n m Q has header inside meets back =>
    have le := inside.le
    have old : c < n := below c p rfl
    have fixed : ∀ i h, g.table[i]? = some h → n ≤ i ∧ i < m + 1 → g'.core? h = g.core? h :=
      fun i h named inside => same i h named (.inr (by omega)) (by simp; omega)
    have has' := has.mono table fun h named => same c h named (.inl ⟨p, rfl⟩) (by simp; omega)
    have header' := header.mono table fun h named => fixed n h named (by omega)
    have back' := back.mono table fun h named => fixed m h named (by omega)
    obtain ⟨looped, leaves⟩ :=
      inside.arm_mono meets table fun i h named inside => fixed i h named (by omega)
    exact .forLoop has' header' looped leaves back'

end Layout

end Graph

end Flowgraph
