import Flowgraph.Proofs.Placement

/-!
# Loops are entered at their headers

Control comes into a loop from outside through its header only.  Within a statement this follows from
where its arcs go: those of its parts lead into the ranges of numbers that the parts take up, and the
loops of a part lie in its range.
-/

namespace Flowgraph

namespace Graph

variable {g : Graph} {s : Statement} {P Q : Spot} {f : SourceFunction} {c i j n m u v : Nat}
  {p lines : List String} {k : Option Nat}

/-- Among the blocks of `B`, no arc leads from outside a loop past its header into it. -/
def Encloses (g : Graph) (B : Nat → Prop) : Prop :=
  ∀ v w j x, B v → B w → g.Loop v j → w < v ∨ j ≤ w → v < x → x < j → ¬ g.Arc w (some x)

/-- The first block of a loop stands behind its header. -/
def Heads (g : Graph) : Prop := ∀ v j, g.Loop v j → g.Arc v (some (v + 1))

theorem Loop.arc (loop : g.Loop i j) : g.Arc i (some j) := by
  obtain ⟨lines, b, has⟩ := loop
  exact ⟨lines, _, has, by simp [Ending.targets]⟩

/-- A block that goes to one place is not the header of a loop. -/
theorem Has.not_loop (sound : g.Sound) (has : g.Has u lines (.goes k)) : ¬ g.Loop u j := by
  rw [has.loop_iff sound]
  simp

theorem Has.goes_arc (sound : g.Sound) (has : g.Has u lines (.goes k)) :
    g.Arc u (some v) ↔ k = some v := by
  rw [has.arc_iff sound]
  simp [Ending.targets, eq_comm]

/-- The loops that begin in `A` are entered at their headers, also from the blocks of `B`. -/
def EnclosesFrom (g : Graph) (A B : Nat → Prop) : Prop :=
  ∀ v w j x, A v → B w → g.Loop v j → w < v ∨ j ≤ w → v < x → x < j → ¬ g.Arc w (some x)

/-- No arc leads from block `w` to the numbers from `n` to below `m`. -/
def Avoids (g : Graph) (n m w : Nat) : Prop := ∀ x, g.Arc w (some x) → x < n ∨ m ≤ x

theorem Has.avoids (sound : g.Sound) (has : g.Has u lines (.goes (some v))) (away : v < n ∨ m ≤ v) :
    g.Avoids n m u := by
  intro x arc
  cases (has.goes_arc sound).1 arc
  exact away

theorem Layout.avoids {n' m' : Nat} (sound : g.Sound) (layout : g.Layout s (some (c, p)) Q n m)
    (below : c < n) (inner : Inner c n m Q u) (apart : m ≤ n' ∨ m' ≤ n) : g.Avoids n' m' u := by
  intro x arc
  have := layout.arc_inside sound below inner arc
  omega

/-- To enclose the loops of a statement from other blocks as well, those must avoid the numbers that
the statement takes up.  They may lead to the block in which it starts. -/
theorem Layout.encloses_from {B : Nat → Prop} (sound : g.Sound) (heads : g.Heads)
    (layout : g.Layout s (some (c, p)) Q n m) (below : c < n) (own : g.Encloses (Inner c n m Q))
    (others : ∀ w, B w → Inner c n m Q w ∨ g.Avoids n m w) :
    g.EnclosesFrom (Inner c n m Q) B := by
  intro v w j x hv hw loop outside low high arc
  obtain inner | avoids := others w hw
  · exact own v w j x hv inner loop outside low high arc
  · -- The first block of the loop and the one behind it are numbers of the statement.
    have first := layout.arc_inside sound below hv (heads v j loop)
    have last := layout.arc_inside sound below hv loop.arc
    have target := avoids x arc
    omega

/-- A loop with the header `n` is enclosed if control comes to its blocks from one block before it,
which leads to the header. -/
theorem Has.encloses {B : Nat → Prop} {r : Nat} (sound : g.Sound) (heads : g.Heads)
    (header : g.Has n lines (.loops (some (n + 1)) (some r))) (ends : g.Has c p (.goes (some n)))
    (inside : g.Layout s (some (n + 1, [])) Q (n + 2) m) (high : m ≤ r)
    (own : g.Encloses (Inner (n + 1) (n + 2) m Q)) (range : ∀ w, B w → w = c ∨ n ≤ w ∧ w < r)
    (blocks : ∀ w, B w → w = n ∨ Inner (n + 1) (n + 2) m Q w ∨
      ∃ lines k, g.Has w lines (.goes (some k)) ∧ (k = n ∨ k = m)) : g.Encloses B := by
  have body : g.EnclosesFrom (Inner (n + 1) (n + 2) m Q) B := by
    refine inside.encloses_from sound heads (Nat.lt_succ_self _) own fun w hw => ?_
    obtain rfl | inner | ⟨lines, k, goes, target⟩ := blocks w hw
    · refine .inr fun x arc => ?_
      rw [header.arc_iff sound] at arc
      simp [Ending.targets] at arc
      omega
    · exact .inl inner
    · exact .inr (goes.avoids sound (by omega))
  intro v w j x hv hw loop outside low before arc
  obtain rfl | inner | ⟨lines, k, goes, -⟩ := blocks v hv
  · -- All blocks but the one before the loop are inside it.
    obtain ⟨b, eq⟩ := (header.loop_iff sound).1 loop
    cases eq
    obtain rfl | within := range w hw
    · cases (ends.goes_arc sound).1 arc
      omega
    · omega
  · exact body v w j x inner hw loop outside low before arc
  · exact goes.not_loop sound loop

/-- The finished blocks of a statement enclose their loops. -/
theorem Layout.encloses (sound : g.Sound) (heads : g.Heads) (layout : g.Layout s P Q n m)
    (start : P = some (c, p)) (below : c < n) : g.Encloses (Inner c n m Q) := by
  induction layout generalizing c p with
  | skip => cases start
  | simple =>
    cases start
    exact fun v w j x inner => absurd inner not_inner
  | ret ends =>
    cases start
    rintro v w j x ⟨rfl | inside, -⟩ - loop
    · rw [ends.loop_iff sound] at loop
      simp at loop
    · omega
  | nil =>
    subst start
    exact fun v w j x inner => absurd inner not_inner
  | @cons s rest l P Q R n m k first second ih₁ ih₂ =>
    subst start
    have low := first.leaves_below (by simpa [Spot.Below] using below)
    intro v w j x hv
    obtain hv | ⟨q, p', rfl, hv⟩ := hv.split second
    · -- The arcs of the second statement lead behind the first.
      refine first.encloses_from sound heads below (ih₁ rfl below) (fun w hw => ?_) v w j x hv
      obtain hw | ⟨q, p', rfl, hw⟩ := hw.split second
      · exact .inl hw
      · exact .inr (second.avoids sound (low q p' rfl) hw (.inr (Nat.le_refl m)))
    · have fresh := low q p' rfl
      refine second.encloses_from sound heads fresh (ih₂ rfl fresh) (fun w hw => ?_) v w j x hv
      obtain hw | ⟨q', p'', same, hw⟩ := hw.split second
      · exact .inr (first.avoids sound below hw (.inl (Nat.le_refl m)))
      · cases same
        exact .inl hw
  | @branch cond a b l c' p' n m r Q Q' ends consequent meets alternate meets' ih₁ ih₂ =>
    cases start
    have le₁ := consequent.le
    have le₂ := alternate.le
    have forks : ∀ x, g.Arc c' (some x) → x = n ∨ x = m := by
      intro x arc
      rw [ends.arc_iff sound] at arc
      simpa [Ending.targets] using arc
    -- Each arm is entered at its first block, from the block that ends with the header of the `if`.
    have thenArm : g.EnclosesFrom (Inner n (n + 1) m Q) (Inner c' n (r + 1) (some (r, []))) := by
      refine consequent.encloses_from sound heads (by omega) (ih₁ rfl (by omega)) fun w hw => ?_
      obtain rfl | (hw | ⟨p, out⟩) | hw | ⟨p, out⟩ := hw.branch
      · exact .inr fun x arc => by have := forks x arc; omega
      · exact .inl hw
      · exact .inr ((meets w p out).avoids sound (by omega))
      · exact .inr (alternate.avoids sound (by omega) hw (by omega))
      · exact .inr ((meets' w p out).avoids sound (by omega))
    have elseArm : g.EnclosesFrom (Inner m (m + 1) r Q') (Inner c' n (r + 1) (some (r, []))) := by
      refine alternate.encloses_from sound heads (by omega) (ih₂ rfl (by omega)) fun w hw => ?_
      obtain rfl | (hw | ⟨p, out⟩) | hw | ⟨p, out⟩ := hw.branch
      · exact .inr fun x arc => by have := forks x arc; omega
      · exact .inr (consequent.avoids sound (by omega) hw (by omega))
      · exact .inr ((meets w p out).avoids sound (by omega))
      · exact .inl hw
      · exact .inr ((meets' w p out).avoids sound (by omega))
    intro v w j x hv hw loop
    obtain rfl | (hv | ⟨p, out⟩) | hv | ⟨p, out⟩ := hv.branch
    · rw [ends.loop_iff sound] at loop
      simp at loop
    · exact thenArm v w j x hv hw loop
    · exact absurd loop ((meets v p out).not_loop sound)
    · exact elseArm v w j x hv hw loop
    · exact absurd loop ((meets' v p out).not_loop sound)
  | whileLoop ends header inside back ih =>
    cases start
    refine header.encloses sound heads ends inside (Nat.le_refl _) (ih rfl (by omega))
      (fun w hw => ?_) fun w hw => ?_
    · have away := hw.2 []
      have := hw.1
      simp at away
      omega
    · obtain rfl | rfl | hw | ⟨p, out⟩ := hw.loop
      · exact .inr (.inr ⟨_, _, ends, .inl rfl⟩)
      · exact .inl rfl
      · exact .inr (.inl hw)
      · exact .inr (.inr ⟨_, _, back w p out, .inl rfl⟩)
  | forLoop ends header inside meets back ih =>
    cases start
    refine header.encloses sound heads ends inside (Nat.le_succ _) (ih rfl (by omega))
      (fun w hw => ?_) fun w hw => ?_
    · have away := hw.2 []
      have := hw.1
      simp at away
      omega
    · obtain rfl | hw := hw.update
      · exact .inr (.inr ⟨_, _, back, .inl rfl⟩)
      obtain rfl | rfl | hw | ⟨p, out⟩ := hw.loop
      · exact .inr (.inr ⟨_, _, ends, .inl rfl⟩)
      · exact .inl rfl
      · exact .inr (.inl hw)
      · exact .inr (.inr ⟨_, _, meets w p out, .inr rfl⟩)

theorem Loop.known (loop : g.Loop i j) : i < g.table.length := by
  obtain ⟨lines, b, h, f, named, -⟩ := loop
  exact (List.getElem?_eq_some_iff.1 named).1

theorem Draws.heads (draws : g.Draws f) : g.Heads := by
  intro v j loop
  obtain ⟨lines, b, has⟩ := id loop
  obtain ⟨_, -, rfl, -⟩ := (draws.fits loop.known).apart lines b _ has
  exact ⟨lines, _, has, List.mem_cons_self⟩

/-- Control comes into a loop of a function through its header. -/
theorem Draws.encloses (draws : g.Draws f) {w x : Nat} (loop : g.Loop v j) (outside : w < v ∨ j ≤ w)
    (low : v < x) (high : x < j) : ¬ g.Arc w (some x) := by
  intro arc
  obtain ⟨Q, layout, leaves⟩ := draws.layout
  have known : w < g.table.length := by
    obtain ⟨lines, e, ⟨h, f, named, -⟩, -⟩ := arc
    exact (List.getElem?_eq_some_iff.1 named).1
  have place : ∀ u, u < g.table.length → Inner 0 1 g.table.length Q u ∨ ∃ p, Q = some (u, p) :=
    fun u known => inner_or_end (by omega) Q
  obtain hv | ⟨p, out⟩ := place v loop.known
  · obtain hw | ⟨p, out⟩ := place w known
    · exact layout.encloses draws.sound draws.heads rfl (by decide) v w j x hv hw loop outside low
        high arc
    · cases ((leaves w p out).goes_arc draws.sound).1 arc
  · exact (leaves v p out).not_loop draws.sound loop

end Graph

end Flowgraph
