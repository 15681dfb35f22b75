import Flowgraph.Proofs.Endings
import Mathlib.Logic.Relation

/-!
# Outlines

The second and the third pass change the blocks of a graph, but not what a reader makes of them.  An
outline says what that is.  It knows the blocks that stay when the empty ones are looked through, and
where each of them leads to.  Blocks that follow each other in a straight line are `Joined`; what
such a line holds is collected from its head on.

Contracting an outline makes one block of two that are joined.  The lines and their heads are the
same before and after, and this is all that there is to know about merging.
-/

namespace Flowgraph

open Relation

/-- A graph with its empty blocks looked through. -/
structure Outline where
  /-- The block is not looked through. -/
  stays : Nat → Prop
  /-- Control goes from the block to other blocks that stay. -/
  settles : Nat → Ending Nat → Prop
  settled : ∀ h e, settles h e → stays h
  /-- The fragments of the block. -/
  lines : Nat → List String

namespace Outline

variable {O O' : Outline} {h k next u v : Nat} {e : Ending Nat} {lines : List String}

/-- Control can go from `u` to `v`. -/
def Feeds (O : Outline) (u v : Nat) : Prop := ∃ e, O.settles u e ∧ v ∈ e.targets Graph.exit

/-- The block `h` leads to `next` only, and is the only one that leads there. -/
structure Joined (O : Outline) (h next : Nat) : Prop where
  inner : h ≠ Graph.entry
  sole : ∀ v, O.Feeds h v ↔ v = next
  notExit : next ≠ Graph.exit
  other : next ≠ h
  alone : ∀ u, O.Feeds u next → u = h

/-- A straight line begins with the block. -/
structure Head (O : Outline) (h : Nat) : Prop where
  stays : O.stays h
  first : ∀ u, ¬ O.Joined u h

/-- The straight line from `h` on holds these fragments and ends as said. -/
inductive Collects (O : Outline) : Nat → List String → Ending Nat → Prop where
  | last {h : Nat} {e : Ending Nat} (settles : O.settles h e)
      (alone : ∀ next, ¬ O.Joined h next) : Collects O h (O.lines h) e
  | link {h next : Nat} {lines : List String} {e : Ending Nat} (joined : O.Joined h next)
      (rest : Collects O next lines e) : Collects O h (O.lines h ++ lines) e

/-- An outline of a graph in which control comes to every block from the entry. -/
structure Proper (O : Outline) : Prop where
  total : ∀ h, O.stays h → h ≠ Graph.exit → ∃ e, O.settles h e
  final : ∀ e, ¬ O.settles Graph.exit e
  unique : ∀ h e e', O.settles h e → O.settles h e' → e = e'
  target : ∀ u v, O.Feeds u v → O.stays v
  source : ∀ u, ¬ O.Feeds u Graph.entry
  rooted : ∀ h, O.stays h → ReflTransGen O.Feeds Graph.entry h

/-! ## Straight lines -/

theorem Joined.feeds (joined : O.Joined h next) : O.Feeds h next := (joined.sole next).2 rfl

theorem Joined.right_unique (joined : O.Joined h u) (joined' : O.Joined h v) : u = v :=
  (joined'.sole u).1 joined.feeds

theorem Joined.stays (joined : O.Joined h next) : O.stays h := by
  obtain ⟨e, settles, -⟩ := joined.feeds
  exact O.settled h e settles

theorem Joined.left_unique (joined : O.Joined u next) (joined' : O.Joined v next) : u = v :=
  joined'.alone u joined.feeds

/-- A straight line is no circle: control would not get into it. -/
theorem Proper.not_circle (proper : O.Proper) (joined : O.Joined h next) : ¬ O.Joined next h := by
  intro back
  -- Each of the two is entered from the other only, so a way from the entry never meets them.
  have outside : ∀ v, ReflTransGen O.Feeds Graph.entry v → v ≠ h ∧ v ≠ next := by
    intro v way
    induction way with
    | refl => exact ⟨joined.inner.symm, back.inner.symm⟩
    | @tail u v _ feeds ih =>
      constructor
      · rintro rfl
        exact ih.2 (back.alone u feeds)
      · rintro rfl
        exact ih.1 (joined.alone u feeds)
  exact (outside h (proper.rooted h joined.stays)).1 rfl

/-- A block is in one straight line only. -/
theorem Head.unique (head : O.Head h) (head' : O.Head k) (way : ReflTransGen O.Joined h v)
    (way' : ReflTransGen O.Joined k v) : h = k := by
  -- Backwards a line is unique, and it stops at a head.
  induction way generalizing k with
  | refl =>
    cases way' with
    | refl => rfl
    | tail _ joined => exact absurd joined (head.first _)
  | tail _ joined ih =>
    cases way' with
    | refl => exact absurd joined (head'.first _)
    | tail way' joined' =>
      obtain rfl := joined.left_unique joined'
      exact ih head' way'

/-- A straight line ends where control has a choice. -/
theorem not_joined_of_loops {body after : Nat} (settles : O.settles h (.loops body after))
    (apart : body ≠ after) : ¬ O.Joined h next := by
  intro joined
  have into := (joined.sole body).1 ⟨_, settles, by simp [Ending.targets]⟩
  have past := (joined.sole after).1 ⟨_, settles, by simp [Ending.targets]⟩
  exact apart (into.trans past.symm)

theorem Collects.unique {lines' : List String} {e' : Ending Nat} (proper : O.Proper)
    (collects : O.Collects h lines e) (collects' : O.Collects h lines' e') :
    lines = lines' ∧ e = e' := by
  induction collects generalizing lines' with
  | last settles alone =>
    cases collects' with
    | last settles' _ => exact ⟨rfl, proper.unique _ _ _ settles settles'⟩
    | link joined _ => exact absurd joined (alone _)
  | link joined _ ih =>
    cases collects' with
    | last _ alone => exact absurd joined (alone _)
    | link joined' rest' =>
      obtain rfl := joined.right_unique joined'
      obtain ⟨rfl, rfl⟩ := ih rest'
      exact ⟨rfl, rfl⟩

/-! ## Making one block of two -/

/-- The outline `O'` is `O` with the joined blocks `h` and `next` as one block. -/
structure Contracts (O : Outline) (h next : Nat) (O' : Outline) : Prop where
  joined : O.Joined h next
  stays : ∀ k, O'.stays k ↔ O.stays k ∧ k ≠ next
  taken : ∀ e, O'.settles h e ↔ O.settles next e
  gone : ∀ e, ¬ O'.settles next e
  kept : ∀ k e, k ≠ h → k ≠ next → (O'.settles k e ↔ O.settles k e)
  linesTaken : O'.lines h = O.lines h ++ O.lines next
  linesKept : ∀ k, k ≠ h → k ≠ next → O'.lines k = O.lines k

namespace Contracts

variable (contracts : O.Contracts h next O')

include contracts

theorem feeds_self : O'.Feeds h v ↔ O.Feeds next v := by
  simp only [Feeds, contracts.taken]

theorem feeds_other (away : k ≠ h) (away' : k ≠ next) : O'.Feeds k v ↔ O.Feeds k v := by
  simp only [Feeds, contracts.kept k _ away away']

theorem not_feeds : ¬ O'.Feeds next v := by
  rintro ⟨e, settles, -⟩
  exact contracts.gone e settles

/-- Only `h` leads to `next`, so nothing does any more. -/
theorem not_feeds_to : ¬ O'.Feeds u next := by
  intro feeds
  -- `h` now leads where `next` did, which is not back to `next`.
  by_cases self : u = h
  · subst self
    have loop := contracts.joined.alone next (contracts.feeds_self.1 feeds)
    exact contracts.joined.other loop
  · by_cases same : u = next
    · subst same
      exact contracts.not_feeds feeds
    · exact self (contracts.joined.alone u ((contracts.feeds_other self same).1 feeds))

theorem joined_other (away : k ≠ h) (away' : k ≠ next) : O'.Joined k v ↔ O.Joined k v := by
  constructor
  · intro joined
    refine ⟨joined.inner, fun w => ?_, joined.notExit, joined.other, fun u feeds => ?_⟩
    · rw [← contracts.feeds_other away away', joined.sole]
    · -- What leads to `v` leads there in both outlines, but for `h` and `next`.
      by_cases self : u = h
      · subst self
        obtain rfl := (contracts.joined.sole v).1 feeds
        exact absurd joined.feeds contracts.not_feeds_to
      · by_cases same : u = next
        · subst same
          exact absurd (joined.alone h (contracts.feeds_self.2 feeds)).symm away
        · exact joined.alone u ((contracts.feeds_other self same).2 feeds)
  · intro joined
    refine ⟨joined.inner, fun w => ?_, joined.notExit, joined.other, fun u feeds => ?_⟩
    · rw [contracts.feeds_other away away', joined.sole]
    · by_cases self : u = h
      · subst self
        exact absurd (joined.alone next (contracts.feeds_self.1 feeds)).symm away'
      · by_cases same : u = next
        · subst same
          exact absurd feeds contracts.not_feeds
        · exact joined.alone u ((contracts.feeds_other self same).1 feeds)

theorem joined_self (proper : O.Proper) : O'.Joined h v ↔ O.Joined next v := by
  have inner : next ≠ Graph.entry := by
    rintro rfl
    exact proper.source h contracts.joined.feeds
  constructor
  · intro joined
    have other : v ≠ next := by
      rintro rfl
      exact contracts.not_feeds_to joined.feeds
    refine ⟨inner, fun w => ?_, joined.notExit, other, fun u feeds => ?_⟩
    · rw [← contracts.feeds_self, joined.sole]
    · by_cases self : u = h
      · subst self
        exact absurd ((contracts.joined.sole v).1 feeds) other
      · by_cases same : u = next
        · exact same
        · exact absurd (joined.alone u ((contracts.feeds_other self same).2 feeds)) self
  · intro joined
    refine ⟨contracts.joined.inner, fun w => ?_, joined.notExit, ?_, fun u feeds => ?_⟩
    · rw [contracts.feeds_self, joined.sole]
    -- two blocks that were joined both ways would be a circle that control never enters
    · rintro rfl
      exact proper.not_circle contracts.joined joined
    · by_cases self : u = h
      · exact self
      · by_cases same : u = next
        · subst same
          exact absurd feeds contracts.not_feeds
        · exact absurd (joined.alone u ((contracts.feeds_other self same).1 feeds)) same

theorem head_iff (proper : O.Proper) : O'.Head k ↔ O.Head k := by
  constructor
  · intro head
    obtain ⟨stays, away⟩ := (contracts.stays k).1 head.stays
    refine ⟨stays, fun u joined => ?_⟩
    -- A join into `k` is left in the smaller outline, from `h` if it was from `next`.
    by_cases self : u = h
    · subst self
      exact away (joined.right_unique contracts.joined)
    · by_cases same : u = next
      · subst same
        exact head.first h ((contracts.joined_self proper).2 joined)
      · exact head.first u ((contracts.joined_other self same).2 joined)
  · intro head
    have away : k ≠ next := by
      rintro rfl
      exact head.first h contracts.joined
    refine ⟨(contracts.stays k).2 ⟨head.stays, away⟩, fun u joined => ?_⟩
    by_cases self : u = h
    · subst self
      exact head.first next ((contracts.joined_self proper).1 joined)
    · by_cases same : u = next
      · subst same
        exact contracts.not_feeds joined.feeds
      · exact head.first u ((contracts.joined_other self same).1 joined)

theorem collects (proper : O.Proper) (collects : O'.Collects k lines e) :
    k ≠ next ∧ O.Collects k lines e := by
  -- One link of the smaller outline is two of the other where it starts at `h`.
  induction collects with
  | @last k e settles alone =>
    have away : k ≠ next := by
      rintro rfl
      exact contracts.gone e settles
    refine ⟨away, ?_⟩
    by_cases self : k = h
    · subst self
      rw [contracts.linesTaken]
      refine .link contracts.joined (.last ((contracts.taken e).1 settles) fun v joined => ?_)
      exact alone v ((contracts.joined_self proper).2 joined)
    · rw [contracts.linesKept k self away]
      refine .last ((contracts.kept k e self away).1 settles) fun v joined => ?_
      exact alone v ((contracts.joined_other self away).2 joined)
  | @link k v lines e joined _ ih =>
    have away : k ≠ next := by
      rintro rfl
      exact contracts.not_feeds joined.feeds
    refine ⟨away, ?_⟩
    by_cases self : k = h
    · subst self
      rw [contracts.linesTaken, List.append_assoc]
      exact .link contracts.joined (.link ((contracts.joined_self proper).1 joined) ih.2)
    · rw [contracts.linesKept k self away]
      exact .link ((contracts.joined_other self away).1 joined) ih.2

/-- What is collected from `next` on is collected from `h` on, behind what `h` held. -/
theorem collects' (proper : O.Proper) (collects : O.Collects k lines e) :
    (k ≠ next → O'.Collects k lines e) ∧ (k = next → O'.Collects h (O.lines h ++ lines) e) := by
  induction collects with
  | @last k e settles alone =>
    constructor
    · intro away
      have self : k ≠ h := by
        rintro rfl
        exact alone next contracts.joined
      rw [← contracts.linesKept k self away]
      refine .last ((contracts.kept k e self away).2 settles) fun v joined => ?_
      exact alone v ((contracts.joined_other self away).1 joined)
    · rintro rfl
      rw [← contracts.linesTaken]
      refine .last ((contracts.taken e).2 settles) fun v joined => ?_
      exact alone v ((contracts.joined_self proper).1 joined)
  | @link k v lines e joined _ ih =>
    constructor
    · intro away
      by_cases self : k = h
      · subst self
        exact ih.2 (joined.right_unique contracts.joined)
      · have onward : v ≠ next := by
          rintro rfl
          exact self (joined.left_unique contracts.joined)
        rw [← contracts.linesKept k self away]
        exact .link ((contracts.joined_other self away).2 joined) (ih.1 onward)
    · rintro rfl
      rw [← List.append_assoc, ← contracts.linesTaken]
      exact .link ((contracts.joined_self proper).2 joined) (ih.1 joined.other)

theorem collects_iff (proper : O.Proper) :
    O'.Collects k lines e ↔ k ≠ next ∧ O.Collects k lines e :=
  ⟨contracts.collects proper, fun both => (contracts.collects' proper both.2).1 both.1⟩

end Contracts

/-- The outline with the block `next` as a part of `h`. -/
def contract (O : Outline) (h next : Nat) : Outline where
  stays k := O.stays k ∧ k ≠ next
  settles k e := (O.stays k ∧ k ≠ next) ∧ O.settles (if k = h then next else k) e
  settled _ _ settles := settles.1
  lines k := if k = h then O.lines h ++ O.lines next else O.lines k

theorem Joined.contracts (joined : O.Joined h next) : O.Contracts h next (O.contract h next) where
  joined := joined
  stays k := Iff.rfl
  taken e := by
    show _ ∧ O.settles (if h = h then next else h) e ↔ _
    rw [if_pos rfl, and_iff_right ⟨joined.stays, joined.other.symm⟩]
  gone e settles := settles.1.2 rfl
  kept k e away away' := by
    show _ ∧ O.settles (if k = h then next else k) e ↔ _
    rw [if_neg away]
    exact ⟨fun settles => settles.2, fun settles => ⟨⟨O.settled k e settles, away'⟩, settles⟩⟩
  linesTaken := if_pos rfl
  linesKept k away _ := if_neg away

end Outline

end Flowgraph
