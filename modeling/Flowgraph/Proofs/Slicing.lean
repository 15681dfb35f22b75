import Flowgraph.Syntax.Token
import Mathlib.Algebra.GroupWithZero.Nat

/-!
# The tokens between two offsets

The search for the first token goes by halves and looks at starts only; the cut at the other end
looks at ends only.  Together they keep the tokens that lie between the two offsets, because starts
and ends of tokens that do not overlap rise together: no token before the first one starts late
enough, and no token behind the cut ends early enough.
-/

namespace Flowgraph

namespace Token

variable {tokens : Array Token} {offset stop : Int} {low high looks found : Nat}

/-- Tokens as they stand in a source: none is empty, they are in source order, and no two of them
overlap. -/
structure InOrder (tokens : Array Token) : Prop where
  nonempty : ∀ t ∈ tokens.toList, t.start < t.stop
  sorted : tokens.toList.Pairwise fun t u => t.start ≤ u.start
  disjoint : tokens.toList.Pairwise fun t u => t.stop ≤ u.start ∨ u.stop ≤ t.start

/-- Each token ends before the next one starts. -/
theorem InOrder.apart (inOrder : InOrder tokens) :
    tokens.toList.Pairwise fun t u => t.stop ≤ u.start := by
  refine (inOrder.sorted.and inOrder.disjoint).imp_of_mem ?_
  rintro t u left right ⟨before, here | there⟩
  · exact here
  · -- The tokens would have to be empty.
    have first := inOrder.nonempty t left
    have second := inOrder.nonempty u right
    omega

/-- Ends rise as starts do. -/
theorem InOrder.stops (inOrder : InOrder tokens) :
    tokens.toList.Pairwise fun t u => t.stop < u.stop := by
  refine inOrder.apart.imp_of_mem fun {t u} _ right before => ?_
  have filled := inOrder.nonempty u right
  omega

theorem InOrder.nodup (inOrder : InOrder tokens) : tokens.toList.Nodup :=
  inOrder.stops.imp fun less same => by
    rw [same] at less
    exact absurd less (Int.lt_irrefl _)

/-- Tokens are in order if the parser gives their spans in order. -/
theorem inOrder_ofSpans (source : String) {spans : List (Int × Int)}
    (apart : spans.Pairwise fun a b => a.2 ≤ b.1) : InOrder (ofSpans source spans) := by
  have filled : ∀ t ∈ (ofSpans source spans).toList, t.start < t.stop := by
    intro t member
    obtain ⟨span, inside, rfl⟩ := List.mem_map.1 member
    exact of_decide_eq_true (List.mem_filter.1 inside).2
  have behind : (ofSpans source spans).toList.Pairwise fun t u => t.stop ≤ u.start :=
    List.pairwise_map.2 (apart.filter _)
  refine ⟨filled, behind.imp_of_mem fun {t u} left _ before => ?_, behind.imp Or.inl⟩
  have first := filled t left
  omega

/-! ## The search -/

/-- Between two indices the search takes so many looks at a token and ends at the index `found`. -/
inductive Searches (tokens : Array Token) (offset : Int) : (low high looks found : Nat) → Prop where
  | done {low high : Nat} (empty : high ≤ low) : Searches tokens offset low high 0 low
  | right {low high looks found : Nat} {t : Token} (nonempty : low < high)
      (middle : tokens[(low + high) / 2]? = some t) (early : t.start < offset)
      (rest : Searches tokens offset ((low + high) / 2 + 1) high looks found) :
      Searches tokens offset low high (looks + 1) found
  | left {low high looks found : Nat} {t : Token} (nonempty : low < high)
      (middle : tokens[(low + high) / 2]? = some t) (late : offset ≤ t.start)
      (rest : Searches tokens offset low ((low + high) / 2) looks found) :
      Searches tokens offset low high (looks + 1) found

/-- The search ends, and every look halves what is left to be searched. -/
theorem searches_firstBetween (tokens : Array Token) (offset : Int) (low high : Nat)
    (bound : high ≤ tokens.size) {n : Nat} (size : high - low < 2 ^ n) :
    ∃ looks ≤ n, Searches tokens offset low high looks
      (firstBetween tokens offset low high bound) := by
  induction n generalizing low high with
  | zero =>
    have empty : high ≤ low := by omega
    rw [firstBetween, dif_neg (Nat.not_lt.2 empty)]
    exact ⟨0, Nat.le_refl 0, .done empty⟩
  | succ n ih =>
    rw [Nat.pow_succ] at size
    rw [firstBetween]
    by_cases nonempty : low < high
    · rw [dif_pos nonempty]
      have inside : (low + high) / 2 < tokens.size := by omega
      have middle := Array.getElem?_eq_getElem inside
      dsimp only
      split
      case isTrue early =>
        obtain ⟨looks, few, rest⟩ := ih ((low + high) / 2 + 1) high bound (by omega)
        exact ⟨looks + 1, Nat.succ_le_succ few, .right nonempty middle early rest⟩
      case isFalse late =>
        obtain ⟨looks, few, rest⟩ := ih low ((low + high) / 2) (Nat.le_of_lt inside) (by omega)
        exact ⟨looks + 1, Nat.succ_le_succ few, .left nonempty middle (Int.not_lt.1 late) rest⟩
    · rw [dif_neg nonempty]
      exact ⟨0, Nat.zero_le _, .done (Nat.not_lt.1 nonempty)⟩

/-- The tokens in front of index `n` start before the offset, and those from there on do not. -/
structure Splits (tokens : Array Token) (offset : Int) (low high : Nat) : Prop where
  early : ∀ (i : Nat) t, tokens.toList[i]? = some t → i < low → t.start < offset
  late : ∀ (i : Nat) t, tokens.toList[i]? = some t → high ≤ i → offset ≤ t.start

/-- The invariant of the search: what is outside of the two indices is known.  In the end they meet. -/
theorem Searches.splits (searches : Searches tokens offset low high looks found)
    (sorted : tokens.toList.Pairwise fun t u => t.start ≤ u.start)
    (outside : Splits tokens offset low high) (ordered : low ≤ high) :
    Splits tokens offset found found := by
  have rises : ∀ {i j : Nat} {t u : Token}, tokens.toList[i]? = some t →
      tokens.toList[j]? = some u → i ≤ j → t.start ≤ u.start := by
    intro i j t u here there le
    obtain rfl | less := Nat.eq_or_lt_of_le le
    · cases here.symm.trans there
      exact Int.le_refl _
    · obtain ⟨_, rfl⟩ := List.getElem?_eq_some_iff.1 here
      obtain ⟨_, rfl⟩ := List.getElem?_eq_some_iff.1 there
      exact List.pairwise_iff_getElem.1 sorted i j _ _ less
  induction searches with
  | done empty =>
    obtain rfl := Nat.le_antisymm ordered empty
    exact outside
  | @right low high looks found m nonempty middle early rest ih =>
    rw [← Array.getElem?_toList] at middle
    refine ih ⟨fun i t here less => ?_, outside.late⟩ (by omega)
    exact Int.lt_of_le_of_lt (rises here middle (by omega)) early
  | @left low high looks found m nonempty middle late rest ih =>
    rw [← Array.getElem?_toList] at middle
    refine ih ⟨outside.early, fun i t here behind => ?_⟩ (by omega)
    exact Int.le_trans late (rises middle here behind)

theorem splits_firstAt (sorted : tokens.toList.Pairwise fun t u => t.start ≤ u.start)
    (offset : Int) : Splits tokens offset (firstAt tokens offset) (firstAt tokens offset) := by
  obtain ⟨looks, -, searches⟩ :=
    searches_firstBetween tokens offset 0 _ (Nat.le_refl _) Nat.lt_two_pow_self
  refine searches.splits sorted ⟨?_, ?_⟩ (Nat.zero_le _)
  · intro i t _ less
    exact absurd less (Nat.not_lt_zero i)
  · intro i t here behind
    obtain ⟨inside, -⟩ := List.getElem?_eq_some_iff.1 here
    exact absurd inside (Nat.not_lt.2 behind)

/-! ## The cut -/

/-- Where ends rise, those up to an offset come first. -/
theorem takeWhile_stop {l : List Token} (rising : l.Pairwise fun t u => t.stop < u.stop)
    (stop : Int) : l.takeWhile (·.stop ≤ stop) = l.filter (·.stop ≤ stop) := by
  induction l with
  | nil => rfl
  | cons t rest ih =>
    obtain ⟨first, later⟩ := List.pairwise_cons.1 rising
    by_cases inside : t.stop ≤ stop
    · rw [List.takeWhile_cons_of_pos (by simpa using inside),
        List.filter_cons_of_pos (by simpa using inside), ih later]
    · have none : rest.filter (·.stop ≤ stop) = [] := by
        refine List.filter_eq_nil_iff.2 fun u member => ?_
        have behind := first u member
        simp only [decide_eq_true_eq]
        omega
      rw [List.takeWhile_cons_of_neg (by simpa using inside),
        List.filter_cons_of_neg (by simpa using inside), none]

/-- The tokens that lie between two offsets. -/
def inside (tokens : Array Token) (start stop : Int) : List Token :=
  tokens.toList.filter fun t => start ≤ t.start ∧ t.stop ≤ stop

theorem between_eq_inside (inOrder : InOrder tokens) (start stop : Int) :
    between tokens start stop = (inside tokens start stop).map (·.text) := by
  have splits := splits_firstAt inOrder.sorted start
  generalize reached : firstAt tokens start = first at splits
  have before : (tokens.toList.take first).filter
      (fun t => start ≤ t.start ∧ t.stop ≤ stop) = [] := by
    refine List.filter_eq_nil_iff.2 fun t member => ?_
    obtain ⟨i, less, rfl⟩ := List.mem_take_iff_getElem.1 member
    have early := splits.early i _ (List.getElem?_eq_getElem (by omega)) (by omega)
    simp only [decide_eq_true_eq]
    omega
  have behind : (tokens.toList.drop first).filter (fun t => start ≤ t.start ∧ t.stop ≤ stop) =
      (tokens.toList.drop first).filter (·.stop ≤ stop) := by
    refine List.filter_congr fun t member => ?_
    obtain ⟨i, here⟩ := List.mem_iff_getElem?.1 member
    rw [List.getElem?_drop] at here
    have late := splits.late (first + i) t here (Nat.le_add_right _ _)
    simp [late]
  have rising : (tokens.toList.drop first).Pairwise _ := inOrder.stops.drop
  rw [between, reached, takeWhile_stop rising, inside, ← List.take_append_drop first tokens.toList,
    List.filter_append, before, List.nil_append, List.take_append_drop, behind]

/-- Of tokens in order, those between two offsets are taken: the ones that start at the first offset
or later and end at the second or before, each once and in order.  The search for the first of them
ends after a number of looks that is logarithmic in the number of tokens. -/
theorem between_exact (inOrder : InOrder tokens) (start stop : Int) :
    (∃ kept : List Token, between tokens start stop = kept.map (·.text) ∧
      kept.Sublist tokens.toList ∧ kept.Nodup ∧
      ∀ t, t ∈ kept ↔ t ∈ tokens ∧ start ≤ t.start ∧ t.stop ≤ stop) ∧
    ∃ looks ≤ Nat.log2 tokens.size + 1,
      Searches tokens start 0 tokens.size looks (firstAt tokens start) := by
  constructor
  · refine ⟨inside tokens start stop, between_eq_inside inOrder start stop, List.filter_sublist,
      inOrder.nodup.filter _, fun t => ?_⟩
    simp [inside]
  · exact searches_firstBetween tokens start 0 _ (Nat.le_refl _) Nat.lt_log2_self

/-- The tokens of `a = bb + c ;`. -/
def assignment : Array Token := #[⟨0, 1, "a"⟩, ⟨2, 3, "="⟩, ⟨4, 6, "bb"⟩, ⟨7, 8, "+"⟩, ⟨9, 10, "c"⟩,
  ⟨10, 11, ";"⟩]

/-- One offset lies inside a token and the other between two. -/
theorem between_exact_assignment : InOrder assignment ∧
    (∃ kept : List Token, between assignment 5 10 = kept.map (·.text) ∧
      kept.Sublist assignment.toList ∧ kept.Nodup ∧
      ∀ t, t ∈ kept ↔ t ∈ assignment ∧ 5 ≤ t.start ∧ t.stop ≤ 10) ∧
    ∃ looks ≤ Nat.log2 assignment.size + 1,
      Searches assignment 5 0 assignment.size looks (firstAt assignment 5) := by
  have inOrder : InOrder assignment := by
    constructor <;> decide
  exact ⟨inOrder, between_exact inOrder 5 10⟩

end Token

end Flowgraph
