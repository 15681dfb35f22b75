import Flowgraph.Proofs.Growth
import Flowgraph.Proofs.Keywords

/-!
# Arcs and loops of a layout

Blocks are named by their numbers here, and an arc leads from one number to another or out of
the function.  Every arc goes forward or back to the header of a loop around it, loops are
nested, and no empty block leads out of a loop: `Layout.fits` says this of every finished block
of a statement.
-/

namespace Flowgraph

/-- The fragments hold as many header keywords as the ending needs, and a return is not empty. -/
structure Ending.Suits {α : Type} (e : Ending α) (lines : List String) : Prop where
  choices : Fragment.choices lines = if e.decides then 1 else 0
  empty : lines = [] → ∃ k, e = .goes k

namespace Graph

variable {g : Graph} {c i j n m u v : Nat} {P Q : Spot} {s : Statement} {p lines lines' : List String}
  {e e' : Ending (Option Nat)} {k : Option Nat}

theorem Place.unique (sound : g.Sound) {h : Nat} {p q : Option Nat} (left : g.Place h p)
    (right : g.Place h q) : p = q := by
  have outside : ∀ i : Nat, g.table[i]? ≠ some exit := by
    simp [sound.numbers, number?, sound.exit]
  cases p with
  | none =>
    cases q with
    | none => rfl
    | some j => exact absurd (left ▸ right) (outside j)
  | some i =>
    cases q with
    | none => exact absurd (right ▸ left) (outside i)
    | some j => exact congrArg some (sound.number_unique left right)

theorem Has.unique (sound : g.Sound) (has : g.Has i lines e) (has' : g.Has i lines' e') :
    lines = lines' ∧ e = e' := by
  obtain ⟨h, f, named, core, rel⟩ := has
  obtain ⟨h', f', named', core', rel'⟩ := has'
  obtain rfl := Option.some.inj (named.symm.trans named')
  obtain ⟨rfl, rfl⟩ := Ending.block_injective (Option.some.inj (core.symm.trans core'))
  exact ⟨rfl, rel.unique rel' fun _ _ _ => Place.unique sound⟩

/-- Control can go from block `i` to the place `k`. -/
def Arc (g : Graph) (i : Nat) (k : Option Nat) : Prop :=
  ∃ lines e, g.Has i lines e ∧ k ∈ e.targets none

/-- Block `i` is the header of a loop, and the numbers from `i` to below `j` are inside it. -/
def Loop (g : Graph) (i j : Nat) : Prop := ∃ lines b, g.Has i lines (.loops b (some j))

/-- The loops that begin in the range end in it. -/
def Contained (g : Graph) (n m : Nat) : Prop := ∀ v, n ≤ v → v < m → ∀ j, g.Loop v j → j ≤ m

theorem Has.arc_iff (sound : g.Sound) (has : g.Has i lines e) :
    g.Arc i k ↔ k ∈ e.targets none := by
  constructor
  · rintro ⟨lines', e', has', target⟩
    rwa [(has.unique sound has').2]
  · exact fun target => ⟨lines, e, has, target⟩

theorem Has.loop_iff (sound : g.Sound) (has : g.Has i lines e) :
    g.Loop i j ↔ ∃ b, e = .loops b (some j) := by
  constructor
  · rintro ⟨lines', b, has'⟩
    exact ⟨b, (has.unique sound has').2⟩
  · rintro ⟨b, rfl⟩
    exact ⟨lines, b, has⟩

/-- The block is finished, and it is neither the block in which control leaves the statement nor
outside it. -/
def Inner (c n m : Nat) (Q : Spot) (u : Nat) : Prop :=
  (u = c ∨ n ≤ u ∧ u < m) ∧ ∀ p, Q ≠ some (u, p)

theorem inner_or_end (inside : u = c ∨ n ≤ u ∧ u < m) (Q : Spot) :
    Inner c n m Q u ∨ ∃ p, Q = some (u, p) := by
  by_cases last : ∃ p, Q = some (u, p)
  · exact .inr last
  · exact .inl ⟨inside, fun p out => last ⟨p, out⟩⟩

/-- Where control leaves a statement in the block in which it came, and no numbers are taken up,
nothing is finished. -/
theorem not_inner : ¬ Inner c n n (some (c, p)) u := by
  rintro ⟨rfl | inside, away⟩
  · exact away p rfl
  · omega

/-- The finished blocks of two statements in a row are those of the first and those of the
second. -/
theorem Inner.split {k : Nat} {R : Spot} {rest : Statement} (inner : Inner c n k R u)
    (second : g.Layout rest Q R m k) :
    Inner c n m Q u ∨ ∃ q p, Q = some (q, p) ∧ Inner q m k R u := by
  obtain ⟨inside, away⟩ := inner
  match Q with
  | none =>
    obtain ⟨-, rfl⟩ := second.of_none
    exact .inl ⟨inside, by simp⟩
  | some (q, p) =>
    by_cases last : u = q
    · exact .inr ⟨q, p, rfl, .inl last, away⟩
    · by_cases old : u = c ∨ n ≤ u ∧ u < m
      · exact .inl ⟨old, by simpa using Ne.symm last⟩
      · exact .inr ⟨q, p, rfl, .inr (by omega), away⟩

/-- The finished blocks of an `if` are the branching block, and in each arm the finished blocks and
the block in which control leaves it. -/
theorem Inner.branch {r : Nat} {Q' : Spot} (inner : Inner c n (r + 1) (some (r, [])) u) :
    u = c ∨ (Inner n (n + 1) m Q u ∨ ∃ p, Q = some (u, p)) ∨
      Inner m (m + 1) r Q' u ∨ ∃ p, Q' = some (u, p) := by
  obtain ⟨rfl | inside, away⟩ := inner
  · exact .inl rfl
  · have other : u ≠ r := by simpa using Ne.symm (away [])
    by_cases first : u < m
    · exact .inr (.inl (inner_or_end (by omega) Q))
    · exact .inr (.inr (inner_or_end (by omega) Q'))

/-- The finished blocks of a loop are the block before it, its header, and those inside. -/
theorem Inner.loop (inner : Inner c n (m + 1) (some (m, [])) u) :
    u = c ∨ u = n ∨ Inner (n + 1) (n + 2) m Q u ∨ ∃ p, Q = some (u, p) := by
  obtain ⟨rfl | inside, away⟩ := inner
  · exact .inl rfl
  · have other : u ≠ m := by simpa using Ne.symm (away [])
    by_cases header : u = n
    · exact .inr (.inl header)
    · exact .inr (.inr (inner_or_end (by omega) Q))

/-- The finished blocks of a loop with an update are those of the loop without it, and the block
for the update. -/
theorem Inner.update (inner : Inner c n (m + 2) (some (m + 1, [])) u) :
    u = m ∨ Inner c n (m + 1) (some (m, [])) u := by
  obtain ⟨inside, away⟩ := inner
  have other : u ≠ m + 1 := by simpa using Ne.symm (away [])
  by_cases update : u = m
  · exact .inl update
  · refine .inr ⟨?_, by simpa using Ne.symm update⟩
    omega

/-- Wherever control goes from a block that ends in `e`, it is a block with a number from `n` to
below `m`; or the block returns, and is not empty then. -/
def Within (n m : Nat) (lines : List String) (e : Ending (Option Nat)) : Prop :=
  e = .returns ∧ lines ≠ [] ∨ ∀ k ∈ e.targets none, ∃ v, k = some v ∧ n ≤ v ∧ v < m

theorem Within.mono {n' m' : Nat} (within : Within n m lines e) (low : n' ≤ n) (high : m ≤ m') :
    Within n' m' lines e := by
  refine within.imp_right fun targets k target => ?_
  obtain ⟨v, eq, after, before⟩ := targets k target
  exact ⟨v, eq, by omega, by omega⟩

theorem Has.within_of_goes (sound : g.Sound) (has : g.Has u lines (.goes (some v))) (low : n ≤ v)
    (high : v < m) (has' : g.Has u lines' e) : Within n m lines' e := by
  obtain ⟨-, rfl⟩ := has.unique sound has'
  simp [Within, Ending.targets, low, high]

/-- Control goes from a finished block of a statement to a block that the statement takes up. -/
theorem Layout.range (sound : g.Sound) (layout : g.Layout s P Q n m) (start : P = some (c, p))
    (below : c < n) : ∀ u, Inner c n m Q u → ∀ lines e, g.Has u lines e → Within n m lines e := by
  induction layout generalizing c p with
  | skip => cases start
  | simple =>
    cases start
    exact fun u inner => absurd inner not_inner
  | ret ends =>
    cases start
    rintro u ⟨rfl | inside, -⟩ lines e has
    · obtain ⟨rfl, rfl⟩ := ends.unique sound has
      simp [Within, Fragment.statement]
    · omega
  | nil =>
    subst start
    exact fun u inner => absurd inner not_inner
  | cons first second ih₁ ih₂ =>
    intro u inner lines e has
    obtain inner | ⟨q, p', out, inner⟩ := inner.split second
    · exact (ih₁ start below u inner lines e has).mono (Nat.le_refl _) second.le
    · have below' := first.leaves_below (by rw [start]; simpa [Spot.Below] using below) _ _ out
      exact (ih₂ out below' u inner lines e has).mono first.le (Nat.le_refl _)
  | branch ends consequent meets alternate meets' ih₁ ih₂ =>
    cases start
    intro u inner lines e has
    have le₁ := consequent.le
    have le₂ := alternate.le
    obtain rfl | (inner | ⟨p, out⟩) | inner | ⟨p, out⟩ := inner.branch
    · obtain ⟨-, rfl⟩ := ends.unique sound has
      simp [Within, Ending.targets]
      omega
    · exact (ih₁ rfl (by omega) u inner lines e has).mono (by omega) (by omega)
    · exact (meets u p out).within_of_goes sound (by omega) (by omega) has
    · exact (ih₂ rfl (by omega) u inner lines e has).mono (by omega) (by omega)
    · exact (meets' u p out).within_of_goes sound (by omega) (by omega) has
  | whileLoop ends header inside back ih =>
    cases start
    intro u inner lines e has
    have le := inside.le
    obtain rfl | rfl | inner | ⟨p, out⟩ := inner.loop
    · exact ends.within_of_goes sound (by omega) (by omega) has
    · obtain ⟨-, rfl⟩ := header.unique sound has
      simp [Within, Ending.targets]
      omega
    · exact (ih rfl (by omega) u inner lines e has).mono (by omega) (by omega)
    · exact (back u p out).within_of_goes sound (by omega) (by omega) has
  | forLoop ends header inside meets back ih =>
    cases start
    intro u inner lines e has
    have le := inside.le
    obtain rfl | inner := inner.update
    · exact back.within_of_goes sound (by omega) (by omega) has
    · obtain rfl | rfl | inner | ⟨p, out⟩ := inner.loop
      · exact ends.within_of_goes sound (by omega) (by omega) has
      · obtain ⟨-, rfl⟩ := header.unique sound has
        simp [Within, Ending.targets]
        omega
      · exact (ih rfl (by omega) u inner lines e has).mono (by omega) (by omega)
      · exact (meets u p out).within_of_goes sound (by omega) (by omega) has

/-- From every block of an arm control stays in the arm or goes to where it is left. -/
theorem Layout.arm_within {r n' m' : Nat} (sound : g.Sound)
    (layout : g.Layout s (some (n, [])) Q (n + 1) m) (meets : g.Joins Q (some r))
    (low : n' ≤ n + 1) (high : m ≤ m') (joined : n' ≤ r ∧ r < m') (inside : n ≤ u ∧ u < m)
    (has : g.Has u lines e) : Within n' m' lines e := by
  have blocks : u = n ∨ n + 1 ≤ u ∧ u < m := by omega
  obtain inner | ⟨p, out⟩ := inner_or_end blocks Q
  · exact (layout.range sound rfl (Nat.lt_succ_self n) u inner lines e has).mono low high
  · exact (meets u p out).within_of_goes sound joined.1 joined.2 has

/-! ## What every finished block satisfies -/

/-- How a finished block fits into the loops of the graph. -/
structure Fits (g : Graph) (u : Nat) : Prop where
  finished : ∃ lines e, g.Has u lines e ∧ e.Suits lines
  /-- Control goes forward, or back to the header of a loop around the block. -/
  forward : ∀ v, g.Arc u (some v) → u < v ∨ ∃ j, g.Loop v j ∧ v ≤ u ∧ u < j
  /-- The loops inside a loop end inside it. -/
  nested : ∀ j, g.Loop u j → ∀ v, u ≤ v → v < j → ∀ j', g.Loop v j' → j' ≤ j
  /-- An empty block does not lead out of a loop. -/
  stays : ∀ j, g.Loop u j → ∀ v, u ≤ v → v < j → ∀ e, g.Has v [] e → ∀ k ∈ e.targets none,
    ∃ w, k = some w ∧ u ≤ w ∧ w < j
  /-- The first block of a loop is not where control goes on behind it. -/
  apart : ∀ lines b k, g.Has u lines (.loops b k) →
    ∃ j, k = some j ∧ b = some (u + 1) ∧ u + 1 < j

/-- A block that is not the header of a loop fits if its arcs lead forward or back. -/
theorem Has.fits_of_plain (sound : g.Sound) (has : g.Has u lines e) (suits : e.Suits lines)
    (other : ∀ b k, e ≠ .loops b k)
    (forward : ∀ v, some v ∈ e.targets none → u < v ∨ ∃ j, g.Loop v j ∧ v ≤ u ∧ u < j) :
    g.Fits u where
  finished := ⟨lines, e, has, suits⟩
  forward v arc := forward v ((has.arc_iff sound).1 arc)
  nested j loop := by
    obtain ⟨b, eq⟩ := (has.loop_iff sound).1 loop
    exact absurd eq (other b _)
  stays j loop := by
    obtain ⟨b, eq⟩ := (has.loop_iff sound).1 loop
    exact absurd eq (other b _)
  apart lines' b k has' := absurd (has.unique sound has').2 (other b k)

theorem Has.fits_of_goes (sound : g.Sound) (has : g.Has u lines (.goes (some v)))
    (ahead : u < v) (plain : Fragment.choices lines = 0) : g.Fits u := by
  refine has.fits_of_plain sound ⟨plain, fun _ => ⟨_, rfl⟩⟩ (by simp) fun w target => .inl ?_
  obtain rfl : w = v := by simpa [Ending.targets] using target
  exact ahead

theorem Has.fits_of_returns (sound : g.Sound) (has : g.Has u lines .returns)
    (filled : lines ≠ []) (plain : Fragment.choices lines = 0) : g.Fits u :=
  has.fits_of_plain sound ⟨plain, fun empty => absurd empty filled⟩ (by simp)
    (by simp [Ending.targets])

theorem Has.fits_of_branches {w : Nat} (sound : g.Sound)
    (has : g.Has u lines (.branches (some v) (some w))) (ahead : u < v) (ahead' : u < w)
    (choice : Fragment.choices lines = 1) : g.Fits u := by
  have filled : lines ≠ [] := by
    rintro rfl
    cases choice
  refine has.fits_of_plain sound ⟨choice, fun empty => absurd empty filled⟩ (by simp)
    fun x target => .inl ?_
  obtain rfl | rfl : x = v ∨ x = w := by simpa [Ending.targets] using target
  · exact ahead
  · exact ahead'

/-- A block that leads back to the header of a loop fits. -/
theorem Has.fits_of_back (sound : g.Sound) (has : g.Has u lines (.goes (some v)))
    (loop : g.Loop v j) (after : v ≤ u) (inside : u < j) (plain : Fragment.choices lines = 0) :
    g.Fits u := by
  refine has.fits_of_plain sound ⟨plain, fun _ => ⟨_, rfl⟩⟩ (by simp) fun w target => .inr ?_
  obtain rfl : w = v := by simpa [Ending.targets] using target
  exact ⟨j, loop, after, inside⟩

/-- The header of a loop fits if control stays in the loop from every block inside it. -/
theorem Has.fits_of_loops (sound : g.Sound)
    (has : g.Has u lines (.loops (some (u + 1)) (some j))) (choice : Fragment.choices lines = 1)
    (ahead : u + 1 < j)
    (inside : ∀ v, u < v → v < j → ∀ lines e, g.Has v lines e → Within u j lines e) :
    g.Fits u where
  finished := by
    refine ⟨lines, _, has, choice, ?_⟩
    rintro rfl
    cases choice
  forward x arc := by
    simp [has.arc_iff sound, Ending.targets] at arc
    omega
  nested i loop v after before j' loop' := by
    obtain ⟨b, eq⟩ := (has.loop_iff sound).1 loop
    cases eq
    -- The end of a loop is one of the targets of its header, and those are inside.
    obtain rfl | later := Nat.eq_or_lt_of_le after
    · obtain ⟨b, eq⟩ := (has.loop_iff sound).1 loop'
      cases eq
      exact Nat.le_refl _
    · obtain ⟨lines', b, has'⟩ := loop'
      obtain ⟨eq, -⟩ | targets := inside v later before _ _ has'
      · cases eq
      · obtain ⟨w, eq, -, bound⟩ := targets (some j') (by simp [Ending.targets])
        cases eq
        omega
  stays i loop v after before e has' k target := by
    obtain ⟨b, eq⟩ := (has.loop_iff sound).1 loop
    cases eq
    obtain rfl | later := Nat.eq_or_lt_of_le after
    · obtain ⟨rfl, -⟩ := has.unique sound has'
      cases choice
    · obtain ⟨-, filled⟩ | targets := inside v later before _ _ has'
      · exact absurd rfl filled
      · exact targets k target
  apart lines' b i has' := by
    cases (has.unique sound has').2
    exact ⟨j, rfl, rfl, ahead⟩

/-- Every finished block of a statement fits into the loops of the graph. -/
theorem Layout.fits (sound : g.Sound) (layout : g.Layout s P Q n m) (start : P = some (c, p))
    (below : c < n) (plain : P.Plain) : ∀ u, Inner c n m Q u → g.Fits u := by
  induction layout generalizing c p with
  | skip => cases start
  | simple =>
    cases start
    exact fun u inner => absurd inner not_inner
  | ret ends =>
    cases start
    rintro u ⟨rfl | inside, -⟩
    · exact ends.fits_of_returns sound (by simp [Fragment.statement]) (by simp [plain _ _ rfl])
    · omega
  | nil =>
    subst start
    exact fun u inner => absurd inner not_inner
  | cons first second ih₁ ih₂ =>
    intro u inner
    obtain inner | ⟨q, p', out, inner⟩ := inner.split second
    · exact ih₁ start below plain u inner
    · have below' := first.leaves_below (by rw [start]; simpa [Spot.Below] using below) _ _ out
      exact ih₂ out below' (first.plain plain) u inner
  | branch ends consequent meets alternate meets' ih₁ ih₂ =>
    cases start
    intro u inner
    have le₁ := consequent.le
    have le₂ := alternate.le
    have plain₁ := consequent.plain (Spot.plain_start _)
    have plain₂ := alternate.plain (Spot.plain_start _)
    obtain rfl | (inner | ⟨p, out⟩) | inner | ⟨p, out⟩ := inner.branch
    · exact ends.fits_of_branches sound (by omega) (by omega) (by simp [plain _ _ rfl])
    · exact ih₁ rfl (by omega) (Spot.plain_start _) u inner
    · have := consequent.leaves_below (by simp [Spot.Below]) u p out
      exact (meets u p out).fits_of_goes sound (by omega) (plain₁ u p out)
    · exact ih₂ rfl (by omega) (Spot.plain_start _) u inner
    · have := alternate.leaves_below (by simp [Spot.Below]) u p out
      exact (meets' u p out).fits_of_goes sound this (plain₂ u p out)
  | @whileLoop cond body l c' p' n m Q ends header inside back ih =>
    -- Four kinds of blocks: the one before the loop, the header, those inside, and the last one of
    -- the body, which leads back.
    cases start
    intro u inner
    have le := inside.le
    have plain₁ := inside.plain (Spot.plain_start _)
    have loop : g.Loop n m := ⟨_, _, header⟩
    obtain rfl | rfl | inner | ⟨p, out⟩ := inner.loop
    · exact ends.fits_of_goes sound below (plain _ _ rfl)
    · refine header.fits_of_loops sound (by simp) (by omega) fun v after before lines e has => ?_
      exact inside.arm_within sound back (by omega) (by omega) (by omega) (by omega) has
    · exact ih rfl (by omega) (Spot.plain_start _) u inner
    · have := inside.arm_leaves out
      exact (back u p out).fits_of_back sound loop (by omega) (by omega) (plain₁ u p out)
  | @forLoop init cond update body l c' p' n m Q ends header inside meets back ih =>
    cases start
    intro u inner
    have le := inside.le
    have plain₁ := inside.plain (Spot.plain_start _)
    have loop : g.Loop n (m + 1) := ⟨_, _, header⟩
    obtain rfl | inner := inner.update
    · exact back.fits_of_back sound loop (by omega) (by omega) (by simp)
    · obtain rfl | rfl | inner | ⟨p, out⟩ := inner.loop
      · exact ends.fits_of_goes sound below (by simp [plain _ _ rfl])
      · refine header.fits_of_loops sound (by simp) (by omega) fun v after before lines e has => ?_
        by_cases update : v = m
        · subst v
          exact back.within_of_goes sound (by omega) (by omega) has
        · exact inside.arm_within sound meets (by omega) (by omega) (by omega) (by omega) has
      · exact ih rfl (by omega) (Spot.plain_start _) u inner
      · have := inside.leaves_below (by simp [Spot.Below]) u p out
        exact (meets u p out).fits_of_goes sound this (plain₁ u p out)

/-- A block from which control leaves the function fits. -/
theorem Has.fits_of_leaves (sound : g.Sound) (has : g.Has u lines (.goes none))
    (plain : Fragment.choices lines = 0) : g.Fits u :=
  has.fits_of_plain sound ⟨plain, fun _ => ⟨_, rfl⟩⟩ (by simp) (by simp [Ending.targets])

/-! ## The way out -/

/-- Control can get from block `u` out of the function. -/
inductive Leads (g : Graph) : Nat → Prop where
  | out {u : Nat} (arc : g.Arc u none) : Leads g u
  | step {u v : Nat} (arc : g.Arc u (some v)) (rest : Leads g v) : Leads g u

theorem Has.leads (has : g.Has u lines e) (target : some v ∈ e.targets none) (rest : g.Leads v) :
    g.Leads u :=
  .step ⟨lines, e, has, target⟩ rest

/-- If control gets out from where it leaves a statement, then it does so from every block of the
statement. -/
theorem Layout.leads (layout : g.Layout s P Q n m) (after : ∀ q p, Q = some (q, p) → g.Leads q) :
    (∀ i p, P = some (i, p) → g.Leads i) ∧ ∀ u, n ≤ u → u < m → g.Leads u := by
  -- By induction on the layout, from the end of a statement to its start.
  induction layout with
  | skip => exact ⟨by simp, by omega⟩
  | simple =>
    refine ⟨fun i p eq => ?_, by omega⟩
    cases eq
    exact after _ _ rfl
  | ret ends =>
    refine ⟨fun i p eq => ?_, by omega⟩
    cases eq
    exact .out ⟨_, _, ends, List.mem_singleton_self _⟩
  | nil => exact ⟨after, by omega⟩
  | @cons s rest l P Q R n m k first second ih₁ ih₂ =>
    obtain ⟨middle, late⟩ := ih₂ after
    obtain ⟨start, early⟩ := ih₁ middle
    refine ⟨start, fun u low high => ?_⟩
    by_cases lt : u < m
    · exact early u low lt
    · exact late u (by omega) high
  | @branch cond a b l c p n m r Q Q' ends consequent meets alternate meets' ih₁ ih₂ =>
    have le₁ := consequent.le
    have le₂ := alternate.le
    have join : g.Leads r := after r [] rfl
    obtain ⟨first₁, inside₁⟩ := ih₁ fun q p out => (meets q p out).leads (List.mem_singleton_self _) join
    obtain ⟨first₂, inside₂⟩ := ih₂ fun q p out => (meets' q p out).leads (List.mem_singleton_self _) join
    have thenArm : g.Leads n := first₁ n [] rfl
    refine ⟨fun i p eq => ?_, fun u low high => ?_⟩
    · cases eq
      exact ends.leads List.mem_cons_self thenArm
    · obtain rfl | inside | rfl | inside | rfl :
          u = n ∨ (n + 1 ≤ u ∧ u < m) ∨ u = m ∨ (m + 1 ≤ u ∧ u < r) ∨ u = r := by omega
      · exact thenArm
      · exact inside₁ u inside.1 inside.2
      · exact first₂ u [] rfl
      · exact inside₂ u inside.1 inside.2
      · exact join
  | @whileLoop cond body l c p n m Q ends header inside back ih =>
    have le := inside.le
    have behind : g.Leads m := after m [] rfl
    -- The header leads out past the body, and the body leads out over the header.
    have loop : g.Leads n := header.leads (by simp [Ending.targets]) behind
    obtain ⟨first, within⟩ := ih fun q p out => (back q p out).leads (List.mem_singleton_self _) loop
    refine ⟨fun i p eq => ?_, fun u low high => ?_⟩
    · cases eq
      exact ends.leads (List.mem_singleton_self _) loop
    · obtain rfl | rfl | inside | rfl : u = n ∨ u = n + 1 ∨ (n + 2 ≤ u ∧ u < m) ∨ u = m := by omega
      · exact loop
      · exact first _ [] rfl
      · exact within u inside.1 inside.2
      · exact behind
  | @forLoop init cond update body l c p n m Q ends header inside meets back ih =>
    have le := inside.le
    have behind : g.Leads (m + 1) := after (m + 1) [] rfl
    have loop : g.Leads n := header.leads (by simp [Ending.targets]) behind
    have update : g.Leads m := back.leads (List.mem_singleton_self _) loop
    obtain ⟨first, within⟩ := ih fun q p out => (meets q p out).leads (List.mem_singleton_self _) update
    refine ⟨fun i p eq => ?_, fun u low high => ?_⟩
    · cases eq
      exact ends.leads (List.mem_singleton_self _) loop
    · obtain rfl | rfl | inside | rfl | rfl :
          u = n ∨ u = n + 1 ∨ (n + 2 ≤ u ∧ u < m) ∨ u = m ∨ u = m + 1 := by omega
      · exact loop
      · exact first _ [] rfl
      · exact within u inside.1 inside.2
      · exact update
      · exact behind

end Graph

end Flowgraph
