import Flowgraph.Proofs.Loops
import Flowgraph.Proofs.Statements
import Flowgraph.Proofs.Twins

/-!
# The blocks that control can get to

The layouts of twins hold the same blocks as far as control can get to them: in the same order,
with the same fragments and endings.  `alike_of_twin` lists the numbers of these blocks in pairs.  A
statement is a twin of itself, so this also says which blocks of a single layout control can get
to, and that each of them is entered from a block with a smaller number.
-/

namespace Flowgraph

namespace Graph

/-- Pairs of numbers that rise on both sides, from `n` and `n'` to below `m` and `m'`.  The first
numbers are all in `K`. -/
structure Climbs (K : Nat → Prop) (n m n' m' : Nat) (pairs : List (Nat × Nat)) : Prop where
  within : ∀ a ∈ pairs, (n ≤ a.1 ∧ a.1 < m) ∧ n' ≤ a.2 ∧ a.2 < m'
  sorted : pairs.Pairwise fun a b => a.1 < b.1 ∧ a.2 < b.2
  kept : ∀ a ∈ pairs, K a.1

namespace Climbs

variable {K : Nat → Prop} {n m k n' m' k' : Nat} {pairs later : List (Nat × Nat)}

theorem nil : Climbs K n m n' m' [] := ⟨by simp, .nil, by simp⟩

theorem single (n' : Nat) (kept : K n) : Climbs K n (n + 1) n' (n' + 1) [(n, n')] :=
  ⟨by simp, by simp, by simpa using kept⟩

theorem append (first : Climbs K n m n' m' pairs) (second : Climbs K m k m' k' later)
    (le : n ≤ m ∧ m ≤ k) (le' : n' ≤ m' ∧ m' ≤ k') : Climbs K n k n' k' (pairs ++ later) where
  within a member := by
    obtain member | member := List.mem_append.1 member
    · have := first.within a member
      omega
    · have := second.within a member
      omega
  sorted := by
    refine List.pairwise_append.2 ⟨first.sorted, second.sorted, fun a left b right => ?_⟩
    have := first.within a left
    have := second.within b right
    omega
  kept a member := (List.mem_append.1 member).elim (first.kept a) (second.kept a)

theorem widen (climbs : Climbs K n m n' m' pairs) (le : m ≤ k) (le' : m' ≤ k') :
    Climbs K n k n' k' pairs where
  within a member := by
    have := climbs.within a member
    omega
  sorted := climbs.sorted
  kept := climbs.kept

end Climbs

variable {g g' : Graph} {pairs later : List (Nat × Nat)} {a b start : Nat × Nat}
  {out : Option (Nat × Nat)} {K : Nat → Prop} {M : List (Nat × Nat) → Nat × Nat → Prop}

/-- The blocks of a pair hold the same, and control goes from them to the blocks of a pair. -/
def Match (g g' : Graph) (pairs : List (Nat × Nat)) (a : Nat × Nat) : Prop :=
  ∃ lines e e', g.Has a.1 lines e ∧ g'.Has a.2 lines e' ∧
    e.Rel (Option.Rel fun i i' => (i, i') ∈ pairs) e'

/-- Both blocks of the pair `b` can be entered from those of the pair `a`. -/
def Enters (g g' : Graph) (a b : Nat × Nat) : Prop :=
  (a.1 < b.1 ∧ a.2 < b.2) ∧ g.Arc a.1 (some b.1) ∧ g'.Arc a.2 (some b.2)

/-- What is asked of the blocks of a pair is granted if they match.  What is granted among some pairs
is granted among more. -/
structure Lenient (g g' : Graph) (M : List (Nat × Nat) → Nat × Nat → Prop) : Prop where
  matched : ∀ pairs a, Match g g' pairs a → M pairs a
  grows : ∀ pairs later a, M pairs a → (∀ b ∈ pairs, b ∈ later) → M later a

/-- The pairs are the blocks of two statements that control can get to from the pair `start`, and `M`
holds of their blocks.  If control gets past the statements, then from the pair `out`. -/
structure Paired (g g' : Graph) (M : List (Nat × Nat) → Nat × Nat → Prop) (start : Nat × Nat)
    (pairs : List (Nat × Nat)) (out : Option (Nat × Nat)) : Prop where
  entered : ∀ b ∈ pairs, ∃ a ∈ start :: pairs, Enters g g' a b
  matched : ∀ a ∈ start :: pairs, some a ≠ out → M pairs a
  last : ∀ a, out = some a → a ∈ start :: pairs

theorem Match.mono (matched : Match g g' pairs a) (sub : ∀ b ∈ pairs, b ∈ later) :
    Match g g' later a := by
  obtain ⟨lines, e, e', has, has', rel⟩ := matched
  refine ⟨lines, e, e', has, has', rel.mono fun _ _ places => ?_⟩
  cases places with
  | none => exact .none
  | some pair => exact .some (sub _ pair)

/-- Two blocks that go to the blocks of a pair. -/
theorem Match.of_goes {lines : List String} {k k' : Nat} (has : g.Has a.1 lines (.goes (some k)))
    (has' : g'.Has a.2 lines (.goes (some k'))) (pair : (k, k') ∈ pairs) : Match g g' pairs a :=
  ⟨lines, _, _, has, has', .goes (.some pair)⟩

/-- Two headers with the same fragments whose loops are in pairs. -/
theorem Match.of_loops {lines : List String} {i k i' k' : Nat}
    (has : g.Has a.1 lines (.loops (some i) (some k)))
    (has' : g'.Has a.2 lines (.loops (some i') (some k'))) (into : (i, i') ∈ pairs)
    (past : (k, k') ∈ pairs) : Match g g' pairs a :=
  ⟨lines, _, _, has, has', .loops (.some into) (.some past)⟩

theorem Enters.of_has {lines lines' : List String} {e e' : Ending (Option Nat)}
    (less : a.1 < b.1 ∧ a.2 < b.2) (has : g.Has a.1 lines e) (has' : g'.Has a.2 lines' e')
    (target : some b.1 ∈ e.targets none) (target' : some b.2 ∈ e'.targets none) :
    Enters g g' a b :=
  ⟨less, ⟨lines, e, has, target⟩, ⟨lines', e', has', target'⟩⟩

theorem lenient_match : Lenient g g' (Match g g') where
  matched _ _ matched := matched
  grows _ _ _ matched sub := matched.mono sub

theorem Paired.nil : Paired g g' M start [] (some start) where
  entered := by simp
  matched a member away := absurd (by simpa using member) fun eq : a = start => away (by rw [eq])
  last a eq := by simpa using eq.symm

/-- The pairs of two statements in a row. -/
theorem Paired.append {middle : Nat × Nat} (lenient : Lenient g g' M)
    (first : Paired g g' M start pairs (some middle)) (second : Paired g g' M middle later out) :
    Paired g g' M start (pairs ++ later) out := by
  have early : ∀ a ∈ start :: pairs, a ∈ start :: (pairs ++ later) := by
    intro a member
    obtain rfl | member := List.mem_cons.1 member
    · exact List.mem_cons_self
    · exact List.mem_cons_of_mem _ (List.mem_append_left _ member)
  have late : ∀ a ∈ middle :: later, a ∈ start :: (pairs ++ later) := by
    intro a member
    obtain rfl | member := List.mem_cons.1 member
    · exact early a (first.last a rfl)
    · exact List.mem_cons_of_mem _ (List.mem_append_right _ member)
  refine ⟨fun b member => ?_, fun a member away => ?_, fun a eq => late a (second.last a eq)⟩
  · obtain member | member := List.mem_append.1 member
    · obtain ⟨a, source, enters⟩ := first.entered b member
      exact ⟨a, early a source, enters⟩
    · obtain ⟨a, source, enters⟩ := second.entered b member
      exact ⟨a, late a source, enters⟩
  -- the pair `middle` belongs to both parts, and the second one answers for it
  · by_cases last : a ∈ middle :: later
    · exact lenient.grows _ _ a (second.matched a last away) fun b => List.mem_append_right _
    · have other : a ≠ middle ∧ a ∉ later := by simpa using last
      have first' : a ∈ start :: pairs := by simpa [other.2] using member
      exact lenient.grows _ _ a (first.matched a first' fun eq => other.1 (Option.some.inj eq))
        fun b => List.mem_append_left _

/-! ## The pairs of each kind of statement -/

variable {s s' : Statement} {P P' Q Q' : Spot} {n m n' m' : Nat}

/-- Two statements are laid out alike as far as control can get: what `alike_of_twin` shows. -/
def Alike (g g' : Graph) (K : Nat → Prop) (M : List (Nat × Nat) → Nat × Nat → Prop) (s : Statement)
    (start : Nat × Nat) (n m n' m' : Nat) (Q Q' : Spot) : Prop :=
  ∃ pairs out, Climbs K n m n' m' pairs ∧ Paired g g' M start pairs out ∧
    (out = none ↔ s.AlwaysReturns) ∧
    ∀ a, out = some a → ∃ p, Q = some (a.1, p) ∧ Q' = some (a.2, p)

/-- The blocks of a part from which control goes on at the pair `next` all match. -/
theorem Paired.close {all : List (Nat × Nat)} (next : Nat × Nat) (lenient : Lenient g g' M)
    (paired : Paired g g' M start pairs out) (sub : ∀ b ∈ pairs, b ∈ all)
    (meets : ∀ a, out = some a → ∃ p, Q = some (a.1, p) ∧ Q' = some (a.2, p))
    (joins : g.Joins Q (some next.1)) (joins' : g'.Joins Q' (some next.2))
    (joined : out ≠ none → next ∈ all) : ∀ a ∈ start :: pairs, M all a := by
  intro a member
  by_cases last : out = some a
  · obtain ⟨p, leaves, leaves'⟩ := meets a last
    exact lenient.matched all a
      (.of_goes (joins a.1 p leaves) (joins' a.2 p leaves') (joined (by simp [last])))
  · exact lenient.grows _ _ a (paired.matched a member (Ne.symm last)) sub

/-- If control gets through a part, then to the pair `next` behind it. -/
theorem Paired.enters_next (paired : Paired g g' M start pairs out) (next : Nat × Nat)
    (climbs : Climbs K n m n' m' pairs) (below : start.1 < m ∧ start.2 < m')
    (le : m ≤ next.1 ∧ m' ≤ next.2)
    (meets : ∀ a, out = some a → ∃ p, Q = some (a.1, p) ∧ Q' = some (a.2, p))
    (joins : g.Joins Q (some next.1)) (joins' : g'.Joins Q' (some next.2)) (alive : out ≠ none) :
    ∃ a ∈ start :: pairs, Enters g g' a next := by
  obtain ⟨a, last⟩ := Option.ne_none_iff_exists'.1 alive
  obtain ⟨p, leaves, leaves'⟩ := meets a last
  have member := paired.last a last
  refine ⟨a, member, .of_has ?_ (joins a.1 p leaves) (joins' a.2 p leaves') ?_ ?_⟩
  · obtain rfl | inside := List.mem_cons.1 member
    · omega
    · have := climbs.within a inside
      omega
  · exact List.mem_singleton_self _
  · exact List.mem_singleton_self _

/-- The pairs of two arms that start at the pair `first`.  If control gets past the arms, then to the
pair `next`, and only then their blocks ask for it. -/
structure PairedArms (g g' : Graph) (M : List (Nat × Nat) → Nat × Nat → Prop)
    (start first next : Nat × Nat) (past : Prop) (arm : List (Nat × Nat)) : Prop where
  starts : first ∈ arm
  entered : ∀ b ∈ arm, ∃ a ∈ start :: arm, Enters g g' a b
  matched : ∀ all, (∀ b ∈ arm, b ∈ all) → (past → next ∈ all) → ∀ a ∈ arm, M all a
  leads : past → ∃ a ∈ arm, Enters g g' a next

theorem Alike.arms (next : Nat × Nat) (alike : Alike g g' K M s (n, n') (n + 1) m (n' + 1) m' Q Q')
    (lenient : Lenient g g' M) (kept : K n) (le : n < m ∧ n' < m') (enters : Enters g g' start (n, n'))
    (joins : g.Joins Q (some next.1)) (joins' : g'.Joins Q' (some next.2))
    (behind : m ≤ next.1 ∧ m' ≤ next.2) :
    ∃ arm, Climbs K n m n' m' arm ∧ PairedArms g g' M start (n, n') next (¬ s.AlwaysReturns) arm := by
  obtain ⟨pairs, out, climbs, paired, dead, spots⟩ := alike
  rw [← dead]
  refine ⟨(n, n') :: pairs, (Climbs.single n' kept).append climbs (by omega) (by omega),
    List.mem_cons_self, fun b member => ?_, fun all sub joined a member => ?_, fun alive => ?_⟩
  · obtain rfl | member := List.mem_cons.1 member
    · exact ⟨start, List.mem_cons_self, enters⟩
    · obtain ⟨a, source, enters⟩ := paired.entered b member
      exact ⟨a, List.mem_cons_of_mem _ source, enters⟩
  · exact paired.close next lenient (fun b inside => sub b (List.mem_cons_of_mem _ inside)) spots
      joins joins' joined a member
  · exact paired.enters_next next climbs le behind spots joins joins' alive

theorem alike_branch {cond p : List String} {x : Statement} {c c' r r' : Nat}
    {Q₁ Q₁' Q₂ Q₂' : Spot} {alternate : Option Statement} (location : Option Location)
    (lenient : Lenient g g' M) (kept : K n ∧ K m ∧ K r) (below : c < n ∧ c' < n')
    (ends : g.Has c p (.branches (some n) (some m)))
    (ends' : g'.Has c' p (.branches (some n') (some m')))
    (thenArm : Alike g g' K M x (n, n') (n + 1) m (n' + 1) m' Q₁ Q₁')
    (elseArm : Alike g g' K M (alternate.getD (.sequence [] none)) (m, m') (m + 1) r (m' + 1) r' Q₂
      Q₂')
    (le : n < m ∧ m < r) (le' : n' < m' ∧ m' < r')
    (meets₁ : g.Joins Q₁ (some r)) (meets₁' : g'.Joins Q₁' (some r'))
    (meets₂ : g.Joins Q₂ (some r)) (meets₂' : g'.Joins Q₂' (some r')) :
    Alike g g' K M (.branch cond x alternate location) (c, c') n (r + 1) n' (r' + 1) (some (r, []))
      (some (r', [])) := by
  have enters₁ : Enters g g' (c, c') (n, n') :=
    .of_has below ends ends' List.mem_cons_self List.mem_cons_self
  have enters₂ : Enters g g' (c, c') (m, m') :=
    .of_has (by simp; omega) ends ends' (by simp [Ending.targets]) (by simp [Ending.targets])
  obtain ⟨arm₁, climbs₁, first⟩ := thenArm.arms (r, r') lenient kept.1 ⟨le.1, le'.1⟩
    enters₁ meets₁ meets₁' (by simp; omega)
  obtain ⟨arm₂, climbs₂, second⟩ := elseArm.arms (r, r') lenient kept.2.1 ⟨le.2, le'.2⟩
    enters₂ meets₂ meets₂' (by simp)
  have climbs := climbs₁.append climbs₂ (by omega) (by omega)
  have left : (c, c') :: arm₁ ⊆ (c, c') :: (arm₁ ++ arm₂) :=
    List.cons_subset_cons _ (List.subset_append_left arm₁ arm₂)
  have right : (c, c') :: arm₂ ⊆ (c, c') :: (arm₁ ++ arm₂) :=
    List.cons_subset_cons _ (List.subset_append_right arm₁ arm₂)
  have entered : ∀ b ∈ arm₁ ++ arm₂, ∃ a ∈ (c, c') :: (arm₁ ++ arm₂), Enters g g' a b := by
    intro b member
    obtain member | member := List.mem_append.1 member
    · obtain ⟨a, source, enters⟩ := first.entered b member
      exact ⟨a, left source, enters⟩
    · obtain ⟨a, source, enters⟩ := second.entered b member
      exact ⟨a, right source, enters⟩
  -- `all` is the pairs of both arms, with the pair where they meet if there is one
  have matched : ∀ all, (∀ b ∈ arm₁ ++ arm₂, b ∈ all) →
      (¬ x.AlwaysReturns ∨ ¬ (alternate.getD (.sequence [] none)).AlwaysReturns → (r, r') ∈ all) →
      ∀ a ∈ (c, c') :: (arm₁ ++ arm₂), M all a := by
    intro all sub joined a member
    obtain rfl | member := List.mem_cons.1 member
    · exact lenient.matched all _ ⟨p, _, _, ends, ends', .branches
        (.some (sub _ (List.mem_append_left _ first.starts)))
        (.some (sub _ (List.mem_append_right _ second.starts)))⟩
    · obtain member | member := List.mem_append.1 member
      · exact first.matched all (fun b inside => sub b (List.mem_append_left _ inside))
          (fun past => joined (.inl past)) a member
      · exact second.matched all (fun b inside => sub b (List.mem_append_right _ inside))
          (fun past => joined (.inr past)) a member
  by_cases both : x.AlwaysReturns ∧ (alternate.getD (.sequence [] none)).AlwaysReturns
  · -- Nothing leads to the block where the arms meet.
    refine ⟨arm₁ ++ arm₂, none, climbs.widen (by omega) (by omega), ⟨entered, ?_, by simp⟩, ?_,
      by simp⟩
    · intro a member _
      refine matched _ (fun b inside => inside) (fun alive => ?_) a member
      simp [both] at alive
    · simp [Statement.alwaysReturns_branch, both]
  · have alive := Classical.not_and_iff_not_or_not.1 both
    have joined : ∃ a ∈ (c, c') :: (arm₁ ++ arm₂), Enters g g' a (r, r') := by
      obtain past | past := alive
      · obtain ⟨a, source, enters⟩ := first.leads past
        exact ⟨a, left (List.mem_cons_of_mem _ source), enters⟩
      · obtain ⟨a, source, enters⟩ := second.leads past
        exact ⟨a, right (List.mem_cons_of_mem _ source), enters⟩
    refine ⟨arm₁ ++ arm₂ ++ [(r, r')], some (r, r'),
      climbs.append (.single r' kept.2.2) (by omega) (by omega), ⟨?_, ?_, by simp⟩, ?_, by simp⟩
    · intro b member
      have source : ∃ a ∈ (c, c') :: (arm₁ ++ arm₂), Enters g g' a b := by
        obtain member | member := List.mem_append.1 member
        · exact entered b member
        · obtain rfl := List.mem_singleton.1 member
          exact joined
      obtain ⟨a, source, enters⟩ := source
      exact ⟨a, List.mem_append_left [(r, r')] source, enters⟩
    · intro a member away
      refine matched _ (fun b => List.mem_append_left _) (fun _ => by simp) a ?_
      have other : a ≠ (r, r') := fun eq => away (by rw [eq])
      simpa [other] using member
    · simpa [Statement.alwaysReturns_branch] using not_and.1 both

/-- A loop whose inside is given by its pairs, and by those of the blocks behind it that lead back. -/
theorem alike_loop {header header' p : List String} {c c' k k' : Nat}
    {inner tail : List (Nat × Nat)} (lenient : Lenient g g' M) (kept : K n ∧ K (n + 1) ∧ K k)
    (below : c < n ∧ c' < n') (ends : g.Has c p (.goes (some n)))
    (ends' : g'.Has c' p (.goes (some n')))
    (loop : g.Has n header (.loops (some (n + 1)) (some k)))
    (loop' : g'.Has n' header' (.loops (some (n' + 1)) (some k')))
    (headed : ∀ all, (n + 1, n' + 1) ∈ all → (k, k') ∈ all → M all (n, n'))
    (climbs : Climbs K (n + 2) m (n' + 2) m' inner) (tailClimbs : Climbs K m k m' k' tail)
    (le : n + 2 ≤ m ∧ m ≤ k) (le' : n' + 2 ≤ m' ∧ m' ≤ k')
    (paired : Paired g g' M (n + 1, n' + 1) inner out)
    (entered : ∀ b ∈ tail, ∃ a ∈ (n + 1, n' + 1) :: inner, Enters g g' a b)
    (matched : ∀ all, (∀ b ∈ (n, n') :: (inner ++ tail), b ∈ all) →
      ∀ a ∈ (n + 1, n' + 1) :: (inner ++ tail), M all a)
    (passes : ¬ s.AlwaysReturns) :
    Alike g g' K M s (c, c') n (k + 1) n' (k' + 1) (some (k, [])) (some (k', [])) := by
  let body := (n + 1, n' + 1) :: (inner ++ tail)
  have bodyClimbs : Climbs K (n + 1) k (n' + 1) k' body := by
    have first := (Climbs.single (n' + 1) kept.2.1).append climbs (by omega) (by omega)
    exact first.append tailClimbs (by omega) (by omega)
  have climbs' : Climbs K n (k + 1) n' (k' + 1) ((n, n') :: (body ++ [(k, k')])) :=
    (Climbs.single n' kept.1).append (bodyClimbs.append (.single k' kept.2.2) (by omega) (by omega))
      (by omega) (by omega)
  have member : ∀ a ∈ body, a ∈ (c, c') :: (n, n') :: (body ++ [(k, k')]) := fun a inside =>
    List.mem_cons_of_mem _ (List.mem_cons_of_mem _ (List.mem_append_left _ inside))
  refine ⟨_, some (k, k'), climbs', ⟨?_, ?_, by simp⟩, by simp [passes], by simp⟩
  · intro b inside
    obtain rfl | inside := List.mem_cons.1 inside
    · exact ⟨(c, c'), List.mem_cons_self, .of_has below ends ends' (List.mem_singleton_self _)
        (List.mem_singleton_self _)⟩
    obtain inside | behind := List.mem_append.1 inside
    · obtain rfl | inside := List.mem_cons.1 inside
      · exact ⟨(n, n'), by simp, .of_has (by simp) loop loop' List.mem_cons_self
          List.mem_cons_self⟩
      obtain inside | inside := List.mem_append.1 inside
      · obtain ⟨a, source, enters⟩ := paired.entered b inside
        exact ⟨a, member a (List.mem_append_left _ source), enters⟩
      · obtain ⟨a, source, enters⟩ := entered b inside
        exact ⟨a, member a (List.mem_append_left _ source), enters⟩
    · obtain rfl := List.mem_singleton.1 behind
      exact ⟨(n, n'), by simp, .of_has (by simp; omega) loop loop' (by simp [Ending.targets])
        (by simp [Ending.targets])⟩
  · intro a inside away
    have other : a ≠ (k, k') := fun eq => away (by rw [eq])
    obtain rfl | inside := List.mem_cons.1 inside
    · exact lenient.matched _ _ (.of_goes ends ends' (by simp))
    obtain rfl | inside := List.mem_cons.1 inside
    · exact headed _ (by simp [body]) (by simp)
    · refine matched _ ?_ a (by simpa [other, body] using inside)
      intro b source
      obtain rfl | source := List.mem_cons.1 source
      · exact List.mem_cons_self
      · exact List.mem_cons_of_mem _ (List.mem_append_left _ (List.mem_cons_of_mem _ source))

theorem alike_while {cond p : List String} {x : Statement} {c c' : Nat} {Q₁ Q₁' : Spot}
    (location : Option Location) (lenient : Lenient g g' M) (kept : K n ∧ K (n + 1) ∧ K m)
    (below : c < n ∧ c' < n') (ends : g.Has c p (.goes (some n)))
    (ends' : g'.Has c' p (.goes (some n')))
    (loop : g.Has n (Fragment.whileHeader cond) (.loops (some (n + 1)) (some m)))
    (loop' : g'.Has n' (Fragment.whileHeader cond) (.loops (some (n' + 1)) (some m')))
    (inside : Alike g g' K M x (n + 1, n' + 1) (n + 2) m (n' + 2) m' Q₁ Q₁')
    (le : n + 2 ≤ m ∧ n' + 2 ≤ m') (back : g.Joins Q₁ (some n)) (back' : g'.Joins Q₁' (some n')) :
    Alike g g' K M (.whileLoop cond x location) (c, c') n (m + 1) n' (m' + 1) (some (m, []))
      (some (m', [])) := by
  obtain ⟨inner, out, climbs, paired, -, spots⟩ := inside
  refine alike_loop lenient kept below ends ends' loop loop' ?_ climbs .nil (by omega) (by omega)
    paired (by simp) ?_ (by rintro ⟨⟩)
  · exact fun all into past => lenient.matched all _ (.of_loops loop loop' into past)
  intro all sub a member
  rw [List.append_nil] at sub member
  exact paired.close (n, n') lenient (fun b inside => sub b (List.mem_cons_of_mem _ inside)) spots
    back back' (fun _ => sub (n, n') List.mem_cons_self) a member

theorem alike_for {cond p : List String} {x : Statement} {c c' : Nat} {Q₁ Q₁' : Spot}
    (init update : Option (List String)) (location : Option Location) (lenient : Lenient g g' M)
    (kept : K n ∧ K (n + 1) ∧ K m ∧ K (m + 1)) (below : c < n ∧ c' < n')
    (ends : g.Has c p (.goes (some n))) (ends' : g'.Has c' p (.goes (some n')))
    (loop : g.Has n (Fragment.forHeader cond) (.loops (some (n + 1)) (some (m + 1))))
    (loop' : g'.Has n' (Fragment.forHeader cond) (.loops (some (n' + 1)) (some (m' + 1))))
    (inside : Alike g g' K M x (n + 1, n' + 1) (n + 2) m (n' + 2) m' Q₁ Q₁')
    (le : n + 2 ≤ m ∧ n' + 2 ≤ m') (meets : g.Joins Q₁ (some m)) (meets' : g'.Joins Q₁' (some m'))
    (back : g.Has m (clauseLines update) (.goes (some n)))
    (back' : g'.Has m' (clauseLines update) (.goes (some n'))) :
    Alike g g' K M (.forLoop init cond update x location) (c, c') n (m + 2) n' (m' + 2)
      (some (m + 1, [])) (some (m' + 1, [])) := by
  obtain ⟨inner, out, climbs, paired, -, spots⟩ := inside
  obtain ⟨keptHeader, keptBody, keptUpdate, keptAfter⟩ := kept
  have headed : ∀ all, (n + 1, n' + 1) ∈ all → (m + 1, m' + 1) ∈ all → M all (n, n') :=
    fun all into past => lenient.matched all _ (.of_loops loop loop' into past)
  by_cases dead : out = none
  · -- The body always returns, and nothing leads to the block for the update.
    refine alike_loop lenient ⟨keptHeader, keptBody, keptAfter⟩ below ends ends' loop loop' headed
      climbs .nil (by omega) (by omega) paired (by simp) ?_ (by rintro ⟨⟩)
    intro all sub a member
    rw [List.append_nil] at sub member
    exact paired.close (m, m') lenient
      (fun b inside => sub b (List.mem_cons_of_mem _ inside)) spots meets meets' (absurd dead) a member
  · refine alike_loop lenient ⟨keptHeader, keptBody, keptAfter⟩ below ends ends' loop loop' headed
      climbs (.single m' keptUpdate) (by omega) (by omega) paired ?_ ?_ (by rintro ⟨⟩)
    · intro b member
      obtain rfl := List.mem_singleton.1 member
      exact paired.enters_next _ climbs (by simp; omega) (by simp) spots meets meets' dead
    · intro all sub a member
      have update : (m, m') ∈ all := sub _ (by simp)
      rw [← List.cons_append] at member
      obtain member | member := List.mem_append.1 member
      · exact paired.close (m, m') lenient (fun b inside => sub b (by simp [inside])) spots meets meets'
          (fun _ => update) a member
      · obtain rfl := List.mem_singleton.1 member
        exact lenient.matched all _ (.of_goes back back' (sub _ List.mem_cons_self))

theorem alike_cons {x : Statement} {rest : List Statement} {middle : Spot} {k k' : Nat}
    {location : Option Location} (lenient : Lenient g g' M)
    (first : Alike g g' K M x start n m n' m' Q Q') (le : n ≤ m ∧ m ≤ k) (le' : n' ≤ m' ∧ m' ≤ k')
    (second : ∀ a p, Q = some (a.1, p) → Q' = some (a.2, p) →
      Alike g g' K M (.sequence rest location) a m k m' k' middle P') :
    Alike g g' K M (.sequence (x :: rest) location) start n k n' k' middle P' := by
  obtain ⟨pairs, out, climbs, paired, dead, spots⟩ := first
  cases out with
  | none =>
    refine ⟨pairs, none, climbs.widen le.2 le'.2, paired, ?_, by simp⟩
    simp [Statement.alwaysReturns_cons, dead.1 rfl]
  | some a =>
    obtain ⟨p, leaves, leaves'⟩ := spots a rfl
    obtain ⟨later, out', climbs', paired', dead', spots'⟩ := second a p leaves leaves'
    refine ⟨pairs ++ later, out', climbs.append climbs' le le', paired.append lenient paired', ?_,
      spots'⟩
    have passes : ¬ x.AlwaysReturns := fun returns => by simpa using dead.2 returns
    simp [Statement.alwaysReturns_cons, passes, dead']

/-- Nothing is added by what stands behind a statement that always returns. -/
theorem alike_behind {x : Statement} {rest : List Statement} {R R' : Spot} {k k' : Nat}
    (location : Option Location) (first : Alike g g' K M x start n m n' m' Q Q')
    (returns : x.AlwaysReturns) (le : m ≤ k) (le' : m' ≤ k') :
    Alike g g' K M (.sequence (x :: rest) location) start n k n' k' R R' := by
  obtain ⟨pairs, out, climbs, paired, dead, spots⟩ := first
  obtain rfl := dead.2 returns
  exact ⟨pairs, none, climbs.widen le le', paired, by simp [Statement.alwaysReturns_cons, returns],
    by simp⟩

/-- The layouts of twins hold the same blocks, as far as control can get to them. -/
theorem alike_of_twin (lenient : Lenient g g' M) (twin : s.Twin s') {c c' : Nat} {p : List String}
    (layout : g.Layout s (some (c, p)) Q n m) (layout' : g'.Layout s' (some (c', p)) Q' n' m')
    (kept : ∀ i, n ≤ i → i < m → K i) (below : c < n ∧ c' < n') :
    Alike g g' K M s (c, c') n m n' m' Q Q' := by
  induction twin generalizing c c' p n m n' m' Q Q' with
  | simple tokens location =>
    cases layout
    cases layout'
    exact ⟨[], _, .nil, .nil, by simp; rintro ⟨⟩, by simp⟩
  | ret tokens location =>
    cases layout with
    | ret ends =>
      cases layout' with
      | ret ends' =>
        refine ⟨[], none, .nil, ⟨by simp, ?_, by simp⟩, by simp [Statement.AlwaysReturns.ret],
          by simp⟩
        intro a member _
        obtain rfl : a = (c, c') := by simpa using member
        exact lenient.matched [] _ ⟨_, _, _, ends, ends', .returns⟩
  | nil location =>
    cases layout
    cases layout'
    exact ⟨[], _, .nil, .nil, by simp [Statement.not_alwaysReturns_nil], by simp⟩
  -- the second part starts at the spot the first one leaves, which twins leave alike
  | cons first second ih₁ ih₂ =>
    cases layout with
    | cons layout₁ layout₂ =>
      cases layout' with
      | cons layout₁' layout₂' =>
        have le := And.intro layout₁.le layout₂.le
        refine alike_cons lenient (ih₁ layout₁ layout₁' (fun i low high => kept i low (by omega)) below)
          le ⟨layout₁'.le, layout₂'.le⟩ fun a r out out' => ?_
        subst out out'
        have low := layout₁.leaves_below (by simpa [Spot.Below] using below.1) _ _ rfl
        have low' := layout₁'.leaves_below (by simpa [Spot.Below] using below.2) _ _ rfl
        exact ih₂ layout₂ layout₂' (fun i low high => kept i (by omega) high) ⟨low, low'⟩
  | behind rest rest' location returns first ih =>
    cases layout with
    | cons layout₁ layout₂ =>
      cases layout' with
      | cons layout₁' layout₂' =>
        have le := layout₂.le
        exact alike_behind location
          (ih layout₁ layout₁' (fun i low high => kept i low (by omega)) below) returns le layout₂'.le
  | branch condition location thenArm elseArm ih₁ ih₂ =>
    cases layout with
    | branch ends consequent meets alternate meets₂ =>
      cases layout' with
      | branch ends' consequent' meets' alternate' meets₂' =>
        have le := And.intro consequent.le alternate.le
        have le' := And.intro consequent'.le alternate'.le
        refine alike_branch location lenient ⟨?_, ?_, ?_⟩ below ends ends'
          (ih₁ consequent consequent' (fun i low high => kept i (by omega) (by omega)) (by omega))
          (ih₂ alternate alternate' (fun i low high => kept i (by omega) (by omega)) (by omega))
          (by omega) (by omega) meets meets' meets₂ meets₂'
        all_goals exact kept _ (by omega) (by omega)
  | whileLoop condition location inside ih =>
    cases layout with
    | whileLoop ends header layout back =>
      cases layout' with
      | whileLoop ends' header' layout' back' =>
        have le := And.intro layout.le layout'.le
        refine alike_while location lenient ⟨?_, ?_, ?_⟩ below ends ends' header header'
          (ih layout layout' (fun i low high => kept i (by omega) (by omega)) (by omega)) le back back'
        all_goals exact kept _ (by omega) (by omega)
  | forLoop init condition update location inside ih =>
    cases layout with
    | forLoop ends header layout meets back =>
      cases layout' with
      | forLoop ends' header' layout' meets' back' =>
        have le := And.intro layout.le layout'.le
        refine alike_for init update location lenient ⟨?_, ?_, ?_, ?_⟩ below ends ends' header header'
          (ih layout layout' (fun i low high => kept i (by omega) (by omega)) (by omega)) le meets
          meets' back back'
        all_goals exact kept _ (by omega) (by omega)

/-! ## Whole functions -/

/-- The numbers of the blocks that control can get to, apart from the first one. -/
structure Reached (g : Graph) (live : List Nat) : Prop where
  sorted : (0 :: live).Pairwise (· < ·)
  below : ∀ i ∈ 0 :: live, i < g.table.length
  entered : ∀ i ∈ live, ∃ u ∈ 0 :: live, u < i ∧ g.Arc u (some i)
  closed : ∀ i ∈ 0 :: live, ∀ v, g.Arc i (some v) → v ∈ live

variable {f f' : SourceFunction}

theorem Draws.length (draws : g.Draws f) : 1 ≤ g.table.length :=
  (List.getElem?_eq_some_iff.1 draws.sound.first).1

/-- Every block of the graph of a function fits into its loops. -/
theorem Draws.fits (draws : g.Draws f) {i : Nat} (known : i < g.table.length) : g.Fits i := by
  obtain ⟨Q, layout, leaves⟩ := draws.layout
  obtain inner | ⟨p, out⟩ :=
    inner_or_end (c := 0) (n := 1) (m := g.table.length) (u := i) (by omega) Q
  · exact layout.fits draws.sound rfl (by simp) (Spot.plain_start _) i inner
  · exact (leaves i p out).fits_of_leaves draws.sound (layout.plain (Spot.plain_start _) i p out)

/-- Control can get out of the function from every block. -/
theorem Draws.leads (draws : g.Draws f) {i : Nat} (known : i < g.table.length) : g.Leads i := by
  obtain ⟨Q, layout, leaves⟩ := draws.layout
  obtain ⟨start, inside⟩ := layout.leads fun q p out =>
    .out ⟨p, _, leaves q p out, List.mem_singleton_self _⟩
  cases i with
  | zero => exact start 0 [] rfl
  | succ i => exact inside _ (by omega) known

/-- If control gets past the body of a function, it leaves the function. -/
theorem Alike.whole (lenient : Lenient g g' M) (alike : Alike g g' K M s start n m n' m' Q Q')
    (leaves : g.Joins Q none) (leaves' : g'.Joins Q' none) :
    ∃ pairs, Climbs K n m n' m' pairs ∧ Paired g g' M start pairs none := by
  obtain ⟨pairs, out, climbs, paired, -, spots⟩ := alike
  refine ⟨pairs, climbs, paired.entered, fun a member _ => ?_, by simp⟩
  by_cases last : out = some a
  · obtain ⟨p, out, out'⟩ := spots a last
    exact lenient.matched pairs a ⟨p, _, _, leaves a.1 p out, leaves' a.2 p out', .goes .none⟩
  · exact paired.matched a member (Ne.symm last)

/-- The graphs of functions whose bodies are twins hold the same blocks. -/
theorem Draws.paired (draws : g.Draws f) (draws' : g'.Draws f') (twin : f.body.Twin f'.body) :
    ∃ pairs, Climbs (fun _ => True) 1 g.table.length 1 g'.table.length pairs ∧
      Paired g g' (Match g g') (0, 0) pairs none := by
  obtain ⟨Q, layout, leaves⟩ := draws.layout
  obtain ⟨Q', layout', leaves'⟩ := draws'.layout
  have alike :=
    alike_of_twin (K := fun _ => True) lenient_match twin layout layout' (by simp) (by simp)
  exact alike.whole lenient_match leaves leaves'

/-- If a block ends in the blocks of pairs, control goes nowhere else. -/
theorem Has.into_pair {i v : Nat} {lines : List String} {e e' : Ending (Option Nat)}
    (sound : g.Sound)
    (has : g.Has i lines e) (rel : e.Rel (Option.Rel fun i i' => (i, i') ∈ pairs) e')
    (arc : g.Arc i (some v)) : ∃ v', (v, v') ∈ pairs := by
  rw [has.arc_iff sound] at arc
  obtain ⟨k, target, place⟩ := rel.targets .none arc
  cases place with
  | some pair => exact ⟨_, pair⟩

theorem Has.into_pair_swap {i' v' : Nat} {lines : List String} {e e' : Ending (Option Nat)}
    (sound : g'.Sound) (has : g'.Has i' lines e')
    (rel : e.Rel (Option.Rel fun i i' => (i, i') ∈ pairs) e') (arc : g'.Arc i' (some v')) :
    ∃ v, (v, v') ∈ pairs := by
  rw [has.arc_iff sound] at arc
  have back := rel.swap (S := Option.Rel fun i' i => (i, i') ∈ pairs) fun _ _ places => by
    cases places with
    | none => exact .none
    | some pair => exact .some pair
  obtain ⟨k, target, place⟩ := back.targets .none arc
  cases place with
  | some pair => exact ⟨_, pair⟩

/-- The first numbers of the pairs are all that control can get to, if it does not get out of them. -/
theorem Climbs.reached (draws : g.Draws f) {m' : Nat}
    (climbs : Climbs K 1 g.table.length 1 m' pairs)
    (entered : ∀ b ∈ pairs, ∃ a ∈ (0, 0) :: pairs, Enters g g' a b)
    (closed : ∀ a ∈ (0, 0) :: pairs, ∀ v, g.Arc a.1 (some v) → ∃ v', (v, v') ∈ pairs) :
    g.Reached (pairs.map Prod.fst) := by
  have cons : 0 :: pairs.map Prod.fst = ((0, 0) :: pairs).map Prod.fst := rfl
  refine ⟨?_, ?_, ?_, ?_⟩
  · refine List.pairwise_cons.2 ⟨?_, ?_⟩
    · simp only [List.mem_map]
      rintro _ ⟨a, member, rfl⟩
      exact (climbs.within a member).1.1
    · exact List.pairwise_map.2 (climbs.sorted.imp fun less => less.1)
  · intro i member
    obtain rfl | member := List.mem_cons.1 member
    · exact draws.length
    · obtain ⟨a, inside, rfl⟩ := List.mem_map.1 member
      exact (climbs.within a inside).1.2
  · intro i member
    obtain ⟨b, inside, rfl⟩ := List.mem_map.1 member
    obtain ⟨a, source, less, arc, -⟩ := entered b inside
    exact ⟨a.1, cons ▸ List.mem_map_of_mem source, less.1, arc⟩
  · intro i member v arc
    rw [cons] at member
    obtain ⟨a, inside, rfl⟩ := List.mem_map.1 member
    obtain ⟨v', pair⟩ := closed a inside v arc
    exact List.mem_map_of_mem (f := Prod.fst) pair

theorem Climbs.swap {n m n' m' : Nat} (climbs : Climbs K n m n' m' pairs) :
    Climbs (fun _ => True) n' m' n m (pairs.map Prod.swap) where
  within a member := by
    obtain ⟨b, inside, rfl⟩ := List.mem_map.1 member
    exact (climbs.within b inside).symm
  sorted := List.pairwise_map.2 (climbs.sorted.imp fun less => less.symm)
  kept _ _ := trivial

/-- The same for the second numbers. -/
theorem Climbs.reached_swap (draws : g'.Draws f') {m : Nat}
    (climbs : Climbs K 1 m 1 g'.table.length pairs)
    (entered : ∀ b ∈ pairs, ∃ a ∈ (0, 0) :: pairs, Enters g g' a b)
    (closed : ∀ a ∈ (0, 0) :: pairs, ∀ v', g'.Arc a.2 (some v') → ∃ v, (v, v') ∈ pairs) :
    g'.Reached (pairs.map Prod.snd) := by
  have cons : (0, 0) :: pairs.map Prod.swap = ((0, 0) :: pairs).map Prod.swap := rfl
  have reached := @Climbs.reached g' g _ _ f' draws m climbs.swap
  rw [List.map_map] at reached
  apply reached
  · intro b member
    obtain ⟨b, inside, rfl⟩ := List.mem_map.1 member
    obtain ⟨a, source, less, arc, arc'⟩ := entered b inside
    exact ⟨a.swap, cons ▸ List.mem_map_of_mem (f := Prod.swap) source, less.symm, arc', arc⟩
  · intro a member v' arc
    rw [cons] at member
    obtain ⟨a, inside, rfl⟩ := List.mem_map.1 member
    obtain ⟨v, pair⟩ := closed a inside v' arc
    exact ⟨v, List.mem_map_of_mem (f := Prod.swap) pair⟩

section Matching

variable (climbs : Climbs K 1 g.table.length 1 g'.table.length pairs)
  (paired : Paired g g' (Match g g') (0, 0) pairs none)

include climbs paired

theorem reached_fst (draws : g.Draws f) : g.Reached (pairs.map Prod.fst) := by
  apply climbs.reached draws paired.entered
  intro a member v arc
  obtain ⟨lines, e, e', has, has', rel⟩ := paired.matched a member (by simp)
  exact has.into_pair draws.sound rel arc

theorem reached_snd (draws : g'.Draws f') : g'.Reached (pairs.map Prod.snd) := by
  apply climbs.reached_swap draws paired.entered
  intro a member v' arc
  obtain ⟨lines, e, e', has, has', rel⟩ := paired.matched a member (by simp)
  exact has'.into_pair_swap draws.sound rel arc

end Matching

/-- Which blocks control can get to in the graph of a function. -/
theorem Draws.reached (draws : g.Draws f) : ∃ live, g.Reached live := by
  obtain ⟨pairs, climbs, paired⟩ := draws.paired draws (.refl f.body)
  exact ⟨_, reached_fst climbs paired draws⟩

end Graph

end Flowgraph
