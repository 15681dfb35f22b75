import Flowgraph.Proofs.Copies
import Flowgraph.Proofs.Survivors

/-!
# What the sweep leaves of twins

The sweep takes away everything that control cannot get to.  What it leaves of the graphs of two
functions whose bodies are twins are copies of each other.
-/

namespace Flowgraph

open Relator

/-! ## Lists of places -/

/-- A part of a list that is given by its places. -/
theorem forall₂_places {t places : List Nat} {p : Nat → Bool} {n : Nat}
    (sorted : places.Pairwise (· < ·)) (within : ∀ i ∈ places, n ≤ i ∧ i < n + t.length)
    (same : ∀ i h, t[i]? = some h → (p h = true ↔ n + i ∈ places)) :
    List.Forall₂ (fun i h => n ≤ i ∧ t[i - n]? = some h) places (t.filter p) := by
  induction t generalizing places n with
  | nil =>
    cases places with
    | nil => exact .nil
    | cons i rest =>
      have := within i List.mem_cons_self
      simp at this
      omega
  | cons a t ih =>
    have later : ∀ i h, n + 1 ≤ i ∧ t[i - (n + 1)]? = some h →
        n ≤ i ∧ (a :: t)[i - n]? = some h := by
      rintro i h ⟨low, found⟩
      have eq : i - n = i - (n + 1) + 1 := by omega
      exact ⟨by omega, by rw [eq, List.getElem?_cons_succ, found]⟩
    have first := same 0 a rfl
    by_cases holds : p a = true
    · -- The first place is that of the first element.
      rw [List.filter_cons_of_pos holds]
      have here := first.1 holds
      cases places with
      | nil => cases here
      | cons i rest =>
        obtain ⟨above, sorted⟩ := List.pairwise_cons.1 sorted
        have low := (within i List.mem_cons_self).1
        have eq : i = n := by
          obtain eq | member := List.mem_cons.1 here
          · omega
          · have := above _ member
            omega
        subst eq
        refine .cons ⟨Nat.le_refl i, by simp⟩ ((ih sorted ?_ ?_).imp later)
        · intro j member
          have := above j member
          have := within j (List.mem_cons_of_mem i member)
          simp at this
          omega
        · intro j h found
          have other : i + 1 + j ≠ i := by omega
          have eq : i + (j + 1) = i + 1 + j := by omega
          rw [same (j + 1) h found, eq, List.mem_cons]
          simp [other]
    · rw [List.filter_cons_of_neg holds]
      have away : n ∉ places := mt first.2 holds
      refine (ih sorted ?_ ?_).imp later
      · intro i member
        have := within i member
        have other : i ≠ n := fun eq => away (eq ▸ member)
        simp at this
        omega
      · intro i h found
        have eq : n + (i + 1) = n + 1 + i := by omega
        rw [same (i + 1) h found, eq]

/-- Two lists that are related to one list. -/
theorem forall₂_join {α : Type} {P P' : α → Nat → Prop} {R : Nat → Nat → Prop} {l : List α}
    {t t' : List Nat} (left : List.Forall₂ P l t) (right : List.Forall₂ P' l t')
    (joined : ∀ a ∈ l, ∀ h h', P a h → P' a h' → R h h') : List.Forall₂ R t t' := by
  induction left generalizing t' with
  | nil =>
    cases right
    exact .nil
  | @cons a h l t first _ ih =>
    cases right with
    | cons first' rest' =>
      exact .cons (joined a List.mem_cons_self _ _ first first')
        (ih rest' fun b member => joined b (List.mem_cons_of_mem a member))

/-! ## Endings that lead to related places -/

namespace Ending

variable {α β γ : Type}

theorem Rel.comp {R : α → β → Prop} {S : β → γ → Prop} {e : Ending α} {f : Ending β} {k : Ending γ}
    (rel : Rel R e f) (rel' : Rel S f k) : Rel (fun a c => ∃ b, R a b ∧ S b c) e k := by
  cases rel with
  | goes r =>
    cases rel' with
    | goes s => exact .goes ⟨_, r, s⟩
  | returns =>
    cases rel'
    exact .returns
  | branches r₁ r₂ =>
    cases rel' with
    | branches s₁ s₂ => exact .branches ⟨_, r₁, s₁⟩ ⟨_, r₂, s₂⟩
  | loops r₁ r₂ =>
    cases rel' with
    | loops s₁ s₂ => exact .loops ⟨_, r₁, s₁⟩ ⟨_, r₂, s₂⟩

/-- Finished blocks with related endings look alike. -/
theorem Rel.resembles {R : Nat → Nat → Prop} {e e' : Ending Nat} (unique : BiUnique R)
    (stops : R Graph.exit Graph.exit) (rel : e.Rel R e') (id id' : Option Nat)
    (lines : List String) : (e.block id lines).Resembles R (e'.block id' lines) := by
  have single : ∀ {a b : Nat}, R a b →
      List.Forall₂ R (OrderedSet.singleton a).toList (OrderedSet.singleton b).toList :=
    fun same => .cons same .nil
  cases rel with
  | goes same => exact ⟨rfl, rfl, rfl, single same, .none, .none, .none⟩
  | returns => exact ⟨rfl, rfl, rfl, single stops, .none, .none, .none⟩
  | branches same same' =>
    exact ⟨rfl, rfl, rfl, rel_insert unique (single same) same', .some same, .some same', .none⟩
  | loops same same' =>
    exact ⟨rfl, rfl, rfl, rel_insert unique (single same) same', .none, .none, .some same'⟩

end Ending

namespace Graph

variable {g g' g₁ g₁' : Graph} {f f' : SourceFunction} {pairs : List (Nat × Nat)} {h h' k : Nat}
  {live : List Nat} {K : Nat → Prop}

/-- The blocks stand for each other: both are the entry, or they are in corresponding places. -/
def Corresponds (g g' : Graph) (pairs : List (Nat × Nat)) (h h' : Nat) : Prop :=
  h = entry ∧ h' = entry ∨
    ∃ p p', Option.Rel (fun i i' => (i, i') ∈ (0, 0) :: pairs) p p' ∧ g.Place h p ∧ g'.Place h' p'

theorem Swept.roll (draws : g.Draws f) (reached : g.Reached live)
    (swept : Swept g (Dropped g live) g₁) :
    List.Forall₂ (fun i h => g.table[i]? = some h) (0 :: live) g₁.roll := by
  rw [Graph.roll, swept.reworks.table]
  have places := forall₂_places (p := fun h => (g₁.live? h).isSome) (n := 0) reached.sorted
    (fun i member => ⟨Nat.zero_le i, by simpa using reached.below i member⟩)
    fun i h named => by
      rw [Nat.zero_add]
      constructor
      · intro alive
        obtain ⟨x, known⟩ := Option.isSome_iff_exists.1 alive
        have kept := (swept.of_live draws known).1
        by_contra away
        exact kept ⟨i, named, away⟩
      · exact fun inside => swept.live_of_named draws inside named
  exact places.imp fun i h found => found.2

theorem Draws.not_place_entry (draws : g.Draws f) {p : Option Nat} : ¬ g.Place entry p := by
  intro place
  cases p with
  | none => cases place
  | some i =>
    have := draws.sound.inside_of_named place
    simp [entry] at this

/-- A place holds one block. -/
theorem Place.block_unique {p : Option Nat} (left : g.Place h p) (right : g.Place k p) : h = k := by
  cases p with
  | none => exact left.trans right.symm
  | some i => exact Option.some.inj (left.symm.trans right)

/-- The endings of the blocks of a pair lead to corresponding blocks. -/
theorem corresponds_of_places {e e' : Ending (Option Nat)} {k k' : Ending Nat}
    (places : k.Rel g.Place e) (rel : e.Rel (Option.Rel fun i i' => (i, i') ∈ pairs) e')
    (places' : k'.Rel g'.Place e') : k.Rel (Corresponds g g' pairs) k' := by
  have joined := (places.comp rel).comp (places'.swap (S := fun p h => g'.Place h p) fun _ _ => id)
  refine joined.mono fun v v' => ?_
  rintro ⟨q', ⟨q, here, places⟩, there⟩
  refine .inr ⟨q, q', ?_, here, there⟩
  cases places with
  | none => exact .none
  | some pair => exact .some (List.mem_cons_of_mem _ pair)

/-- If the sweep leaves the blocks of the pairs, what stands in the same place corresponds. -/
theorem Swept.rolls (draws : g.Draws f) (draws' : g'.Draws f')
    (reached : g.Reached (pairs.map Prod.fst)) (reached' : g'.Reached (pairs.map Prod.snd))
    (swept : Swept g (Dropped g (pairs.map Prod.fst)) g₁)
    (swept' : Swept g' (Dropped g' (pairs.map Prod.snd)) g₁') :
    List.Forall₂ (Corresponds g g' pairs) g₁.roll g₁'.roll := by
  have roll := swept.roll draws reached
  have roll' := swept'.roll draws' reached'
  rw [show 0 :: pairs.map Prod.fst = ((0, 0) :: pairs).map Prod.fst from rfl,
    List.forall₂_map_left_iff] at roll
  rw [show 0 :: pairs.map Prod.snd = ((0, 0) :: pairs).map Prod.snd from rfl,
    List.forall₂_map_left_iff] at roll'
  refine forall₂_join roll roll' fun a member h h' named named' => ?_
  exact .inr ⟨some a.1, some a.2, .some member, named, named'⟩

theorem Climbs.sorted_all {m m' : Nat} (climbs : Climbs K 1 m 1 m' pairs) :
    ((0, 0) :: pairs).Pairwise fun a b => a.1 < b.1 ∧ a.2 < b.2 := by
  refine List.pairwise_cons.2 ⟨fun b member => ?_, climbs.sorted⟩
  have := climbs.within b member
  simp
  omega

section Twins

variable (draws : g.Draws f) (draws' : g'.Draws f')
  (climbs : Climbs K 1 g.table.length 1 g'.table.length pairs)
  (paired : Paired g g' (Match g g') (0, 0) pairs none)

include climbs

/-- A number is in one pair only. -/
theorem Climbs.biUnique : BiUnique fun i i' => (i, i') ∈ (0, 0) :: pairs := by
  have same : ∀ a ∈ (0, 0) :: pairs, ∀ b ∈ (0, 0) :: pairs, a.1 = b.1 ∨ a.2 = b.2 → a = b := by
    intro a left b right eq
    obtain ⟨i, hi, rfl⟩ := List.getElem_of_mem left
    obtain ⟨j, hj, rfl⟩ := List.getElem_of_mem right
    -- the pairs rise on both sides, so two of them that agree on one side stand at one place
    have rising := List.pairwise_iff_getElem.1 climbs.sorted_all
    obtain less | rfl | less := Nat.lt_trichotomy i j
    · have := rising i j hi hj less
      omega
    · rfl
    · have := rising j i hj hi less
      omega
  constructor
  · intro i j i' left right
    exact congrArg Prod.fst (same _ left _ right (.inr rfl))
  · intro i i' j' left right
    exact congrArg Prod.snd (same _ left _ right (.inl rfl))

include draws draws'

theorem Climbs.corresponds_unique : BiUnique (Corresponds g g' pairs) := by
  -- a block of one side has one number, and a number one partner
  have unique : BiUnique (Option.Rel fun i i' => (i, i') ∈ (0, 0) :: pairs) := by
    have unique := climbs.biUnique
    constructor
    · intro p q p' left right
      cases left <;> cases right
      · exact congrArg some (unique.left ‹_› ‹_›)
      · rfl
    · intro p p' q' left right
      cases left <;> cases right
      · exact congrArg some (unique.right ‹_› ‹_›)
      · rfl
  constructor
  · rintro h k h' (⟨rfl, rfl⟩ | ⟨p, p', rel, place, place'⟩)
      (⟨rfl, eq⟩ | ⟨q, q', rel', onward, onward'⟩)
    · rfl
    · exact absurd onward' draws'.not_place_entry
    · exact absurd (eq ▸ place') draws'.not_place_entry
    · obtain rfl := place'.unique draws'.sound onward'
      obtain rfl := unique.left rel rel'
      exact place.block_unique onward
  · rintro h h' k' (⟨rfl, rfl⟩ | ⟨p, p', rel, place, place'⟩)
      (⟨eq, rfl⟩ | ⟨q, q', rel', onward, onward'⟩)
    · rfl
    · exact absurd onward draws.not_place_entry
    · exact absurd (eq ▸ place) draws.not_place_entry
    · obtain rfl := place.unique draws.sound onward
      obtain rfl := unique.right rel rel'
      exact place'.block_unique onward'

include paired

/-- What the sweep leaves of the graphs of twins are copies of each other. -/
theorem Swept.copies (swept : Swept g (Dropped g (pairs.map Prod.fst)) g₁)
    (swept' : Swept g' (Dropped g' (pairs.map Prod.snd)) g₁') :
    Copies (Corresponds g g' pairs) g₁ g₁' where
  unique := climbs.corresponds_unique draws draws'
  entry := .inl ⟨rfl, rfl⟩
  exit := .inr ⟨none, none, .none, rfl, rfl⟩
  roll := Swept.rolls draws draws' (reached_fst climbs paired draws)
    (reached_snd climbs paired draws')
    swept swept'
  blocks h h' same := by
    obtain ⟨rfl, rfl⟩ | ⟨p, p', rel, place, place'⟩ := same
    · rw [swept.live_entry draws, swept'.live_entry draws']
      have first : Corresponds g g' pairs 2 2 :=
        .inr ⟨some 0, some 0, .some List.mem_cons_self, draws.sound.first, draws'.sound.first⟩
      exact .some ⟨rfl, rfl, rfl, .cons first .nil, .none, .none, .none⟩
    · cases rel with
      | none =>
        rw [show h = Graph.exit from place, show h' = Graph.exit from place',
          swept.live_exit draws, swept'.live_exit draws']
        exact .some ⟨rfl, rfl, rfl, .nil, .none, .none, .none⟩
      | @some i i' member =>
        -- The blocks of a pair match, and matching blocks lead to corresponding places.
        obtain ⟨lines, e, e', has, has', rel⟩ := paired.matched (i, i') member (by simp)
        have inside : i ∈ 0 :: pairs.map Prod.fst := List.mem_map_of_mem (f := Prod.fst) member
        have inside' : i' ∈ 0 :: pairs.map Prod.snd := List.mem_map_of_mem (f := Prod.snd) member
        obtain ⟨f, known, places⟩ := swept.live_of_has draws inside place has
        obtain ⟨f', known', places'⟩ := swept'.live_of_has draws' inside' place' has'
        rw [known, known']
        exact .some (Ending.Rel.resembles (climbs.corresponds_unique draws draws')
          (.inr ⟨none, none, .none, rfl, rfl⟩) (corresponds_of_places places rel places') _ _ _)

end Twins

end Graph

end Flowgraph
