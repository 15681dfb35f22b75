import Flowgraph.Proofs.Elision
import Flowgraph.Proofs.Merging
import Mathlib.Data.List.Forall2

/-!
# Copies of a graph

Two graphs are copies of each other if their live blocks correspond, in the order of the tables, and
look alike but for their handles and numbers.  Predecessors are not compared: in a tidy graph they
follow from the edges.  A copy stays a copy when corresponding blocks are bypassed or absorbed in both
graphs, and what can be done in one of them can be done in the other.
-/

namespace Flowgraph

open Relator

variable {R : Nat → Nat → Prop} {h h' next next' u u' v v' : Nat}

/-! ## Related lists and targets -/

theorem forall₂_mem_left {l l' : List Nat} (related : List.Forall₂ R l l') (member : h ∈ l) :
    ∃ k ∈ l', R h k := by
  induction related with
  | nil => cases member
  | @cons a b l l' first _ ih =>
    obtain rfl | member := List.mem_cons.1 member
    · exact ⟨b, List.mem_cons_self, first⟩
    · obtain ⟨k, member, same⟩ := ih member
      exact ⟨k, List.mem_cons_of_mem b member, same⟩

theorem rel_erase (unique : BiUnique R) {s s' : OrderedSet Nat}
    (related : List.Forall₂ R s.toList s'.toList) (same : R h h') :
    List.Forall₂ R (s.erase h).toList (s'.erase h').toList := by
  rw [OrderedSet.toList_erase, OrderedSet.toList_erase, s.nodup.erase_eq_filter,
    s'.nodup.erase_eq_filter]
  refine List.rel_filter (fun a b first => ?_) related
  simpa using not_congr (rel_eq unique first same)

theorem rel_insert (unique : BiUnique R) {s s' : OrderedSet Nat}
    (related : List.Forall₂ R s.toList s'.toList) (same : R h h') :
    List.Forall₂ R (s.insert h).toList (s'.insert h').toList := by
  have member : h ∈ s ↔ h' ∈ s' := List.rel_mem unique same related
  rw [OrderedSet.toList_insert, OrderedSet.toList_insert]
  by_cases inside : h ∈ s
  · rwa [if_pos inside, if_pos (member.1 inside)]
  · rw [if_neg inside, if_neg fun inside' => inside (member.2 inside')]
    exact List.rel_append related (.cons same .nil)

theorem rel_swap {o o' : Option Nat} (related : Option.Rel R o o') :
    Option.Rel (fun a b => R b a) o' o := by
  cases related with
  | none => exact .none
  | some same => exact .some same

/-- Targets stay related when one of them is followed past a block. -/
theorem rel_follow (unique : BiUnique R) {o o' : Option Nat} (related : Option.Rel R o o')
    (same : R h h') (behind : R next next') :
    Option.Rel R (if o = some h then some next else o) (if o' = some h' then some next' else o') := by
  cases related with
  | none => exact .none
  | @some a b first =>
    have iff : a = h ↔ b = h' := rel_eq unique first same
    by_cases eq : a = h
    · rw [if_pos (congrArg some eq), if_pos (congrArg some (iff.1 eq))]
      exact .some behind
    · rw [if_neg (by simpa using eq), if_neg (by simpa using mt iff.2 eq)]
      exact .some first

/-! ## Blocks that look alike -/

namespace Block

/-- The two blocks look alike, and their edges lead to related places in the same order. -/
structure Resembles (R : Nat → Nat → Prop) (x x' : Block) : Prop where
  kind : x.kind = x'.kind
  lines : x.lines = x'.lines
  sealing : x.sealed = x'.sealed
  successors : List.Forall₂ R x.successors.toList x'.successors.toList
  thenTarget : Option.Rel R x.thenTarget x'.thenTarget
  elseTarget : Option.Rel R x.elseTarget x'.elseTarget
  loopExit : Option.Rel R x.loopExit x'.loopExit

namespace Resembles

variable {x x' y y' : Block} (alike : x.Resembles R x')

include alike

theorem swap : x'.Resembles (fun a b => R b a) x where
  kind := alike.kind.symm
  lines := alike.lines.symm
  sealing := alike.sealing.symm
  successors := alike.successors.flip
  thenTarget := rel_swap alike.thenTarget
  elseTarget := rel_swap alike.elseTarget
  loopExit := rel_swap alike.loopExit

theorem merged (alike' : y.Resembles R y') : (x.merged y).Resembles R (x'.merged y') where
  kind := alike.kind
  lines := congrArg₂ _ alike.lines alike'.lines
  sealing := alike.sealing
  successors := alike'.successors
  thenTarget := alike'.thenTarget
  elseTarget := alike'.elseTarget
  loopExit := alike'.loopExit

theorem bypassing (unique : BiUnique R) (same : R h h') (behind : R next next') :
    (x.bypassing h next).Resembles R (x'.bypassing h' next') := by
  have member : h ∈ x.successors ↔ h' ∈ x'.successors := List.rel_mem unique same alike.successors
  by_cases inside : h ∈ x.successors
  · rw [bypassing_of_mem inside, bypassing_of_mem (member.1 inside)]
    exact ⟨alike.kind, alike.lines, alike.sealing,
      rel_insert unique (rel_erase unique alike.successors same) behind,
      rel_follow unique alike.thenTarget same behind, rel_follow unique alike.elseTarget same behind,
      rel_follow unique alike.loopExit same behind⟩
  · rwa [bypassing_of_not_mem inside, bypassing_of_not_mem (mt member.2 inside)]

end Resembles

end Block

namespace Graph

variable {g g' g₁ g₁' : Graph} {x : Block}

/-- The live blocks of the two graphs correspond. -/
structure Copies (R : Nat → Nat → Prop) (g g' : Graph) : Prop where
  unique : BiUnique R
  entry : R entry entry
  exit : R exit exit
  roll : List.Forall₂ R g.roll g'.roll
  blocks : ∀ h h', R h h' → Option.Rel (Block.Resembles R) (g.live? h) (g'.live? h')

namespace Copies

variable (copies : Copies R g g')

include copies

theorem swap : Copies (fun a b => R b a) g' g where
  unique := ⟨fun _ _ _ same same' => copies.unique.right same same',
    fun _ _ _ same same' => copies.unique.left same same'⟩
  entry := copies.entry
  exit := copies.exit
  roll := copies.roll.flip
  blocks h' h same := by
    have alike := copies.blocks h h' same
    generalize g.live? h = o at alike
    generalize g'.live? h' = o' at alike
    cases alike with
    | none => exact .none
    | some alike => exact .some alike.swap

theorem block (same : R h h') (known : g.live? h = some x) :
    ∃ x', g'.live? h' = some x' ∧ x.Resembles R x' := by
  have alike := copies.blocks h h' same
  rw [known] at alike
  generalize g'.live? h' = o' at alike
  cases alike with
  | some alike => exact ⟨_, rfl, alike⟩

theorem isSome_iff (same : R h h') : (g.live? h).isSome ↔ (g'.live? h').isSome := by
  have alike := copies.blocks h h' same
  generalize g.live? h = o at alike
  generalize g'.live? h' = o' at alike
  cases alike <;> simp

/-- Every live block has its counterpart. -/
theorem partner (tidy : g.Tidy) (alive : (g.live? h).isSome) : ∃ h', R h h' := by
  obtain ⟨x, known⟩ := Option.isSome_iff_exists.1 alive
  match h with
  | 0 => exact ⟨_, copies.entry⟩
  | 1 => exact ⟨_, copies.exit⟩
  | h + 2 =>
    have body : x.kind = .body := tidy.kinds (h + 2) x (live?_eq_some.1 known).1
    obtain ⟨k, -, same⟩ := forall₂_mem_left copies.roll (tidy.mem_roll known body)
    exact ⟨k, same⟩

theorem flow (same : R u u') (same' : R v v') (flow : g.Flow u v) : g'.Flow u' v' := by
  obtain ⟨x, known, member⟩ := flow
  obtain ⟨x', known', alike⟩ := copies.block same known
  exact ⟨x', known', (List.rel_mem copies.unique same' alike.successors).1 member⟩

/-- What can be absorbed in one graph can be absorbed in the other. -/
theorem merges (tidy' : g'.Tidy) (same : R h h') (merges : g.Merges h next) :
    ∃ next', R next next' ∧ g'.Merges h' next' := by
  obtain ⟨x, known, body, leads⟩ := merges.leads
  obtain ⟨x', known', alike⟩ := copies.block same known
  have related := alike.successors
  rw [leads] at related
  obtain ⟨next', _, target, rest, leads'⟩ := List.forall₂_cons_left_iff.1 related
  obtain rfl := List.forall₂_nil_left_iff.1 rest
  refine ⟨next', target, ⟨x', known', alike.kind ▸ body, leads'⟩, ?_, ?_, fun u' flow' => ?_⟩
  · exact mt (rel_eq copies.unique target copies.exit).2 merges.inner
  · exact mt (rel_eq copies.unique target same).2 merges.other
  -- whoever else enters the block has a counterpart, which is alone in entering the other
  · obtain ⟨y, known'', -⟩ := id flow'
    obtain ⟨u, source⟩ := copies.swap.partner tidy' (h := u') (by simp [known''])
    have flow := copies.swap.flow source target flow'
    exact (rel_eq copies.unique source same).1 (merges.alone u flow)

theorem hollow : List.Forall₂ R g.hollow g'.hollow := by
  refine List.rel_filter (fun h h' same => ?_) copies.roll
  show (g.live? h).any _ = true ↔ (g'.live? h').any _ = true
  cases known : g.live? h with
  | none =>
    have dead := copies.isSome_iff same
    rw [known] at dead
    have dead' : g'.live? h' = none := by simpa using dead
    rw [dead']
  | some x =>
    obtain ⟨x', known', alike⟩ := copies.block same known
    simp [known', alike.lines]

/-! ## Taking out corresponding blocks -/

theorem roll_filter (same : R h h') :
    List.Forall₂ R (g.roll.filter (· != h)) (g'.roll.filter (· != h')) := by
  refine List.rel_filter (fun k k' same' => ?_) copies.roll
  simpa using not_congr (rel_eq copies.unique same' same)

theorem elides (tidy : g.Tidy) (tidy' : g'.Tidy) (elides : g.Elides h next g₁)
    (elides' : g'.Elides h' next' g₁') (same : R h h') : Copies R g₁ g₁' where
  unique := copies.unique
  entry := copies.entry
  exit := copies.exit
  roll := by
    rw [elides.roll_eq tidy, elides'.roll_eq tidy']
    exact copies.roll_filter same
  blocks k k' same' := by
    have iff : k = h ↔ k' = h' := rel_eq copies.unique same' same
    by_cases here : k = h
    · rw [here, iff.1 here, elides.live_self, elides'.live_self]
      exact .none
    · -- Both empty blocks lead to corresponding blocks, so all edges are led past them alike.
      have behind : R next next' := by
        obtain ⟨x, known, -, -, ends⟩ := elides.empty
        obtain ⟨x', known', -, -, ends'⟩ := elides'.empty
        obtain ⟨y, known'', alike⟩ := copies.block same known
        cases known'.symm.trans known''
        have related := alike.successors
        cases ends with
        | goes leads =>
          cases ends' with
          | goes leads' =>
            rw [leads, leads'] at related
            exact (List.forall₂_cons.1 related).1
      rw [elides.live_other tidy here, elides'.live_other tidy' (mt iff.2 here)]
      have alike := copies.blocks k k' same'
      generalize g.live? k = o at alike
      generalize g'.live? k' = o' at alike
      cases alike with
      | none => exact .none
      | some alike => exact .some (alike.bypassing copies.unique same behind)

theorem absorbs (tidy : g.Tidy) (tidy' : g'.Tidy) (absorbs : g.Absorbs h next g₁)
    (absorbs' : g'.Absorbs h' next' g₁') (same : R h h') (behind : R next next') :
    Copies R g₁ g₁' where
  unique := copies.unique
  entry := copies.entry
  exit := copies.exit
  roll := by
    rw [absorbs.roll_eq tidy.woven, absorbs'.roll_eq tidy'.woven]
    exact copies.roll_filter behind
  blocks k k' same' := by
    have iff : k = h ↔ k' = h' := rel_eq copies.unique same' same
    have iff' : k = next ↔ k' = next' := rel_eq copies.unique same' behind
    by_cases gone : k = next
    · rw [gone, iff'.1 gone, absorbs.live_next tidy.woven, absorbs'.live_next tidy'.woven]
      exact .none
    · by_cases here : k = h
      · obtain ⟨x, known, -⟩ := absorbs.merges.leads
        obtain ⟨y, taken, -⟩ := absorbs.merges.target tidy.woven
        obtain ⟨x', known', alike⟩ := copies.block same known
        obtain ⟨y', taken', alike'⟩ := copies.block behind taken
        rw [here, iff.1 here, absorbs.live_self known taken, absorbs'.live_self known' taken']
        exact .some (alike.merged alike')
      · rw [absorbs.live_other here gone, absorbs'.live_other (mt iff.2 here) (mt iff'.2 gone)]
        exact copies.blocks k k' same'

end Copies

variable {n n' : Nat} {l l' : List Nat}

/-! ## Passes over both graphs -/

theorem Copies.elided (copies : Copies R g g') (elidable : g.Elidable) (elidable' : g'.Elidable)
    (elided : Elided l g g₁) (elided' : Elided l' g' g₁') (related : List.Forall₂ R l l') :
    Copies R g₁ g₁' := by
  induction elided generalizing l' g' with
  | nil =>
    cases related
    cases elided'
    exact copies
  | cons first _ ih =>
    cases related with
    | cons same related =>
      cases elided' with
      | cons first' rest' =>
        exact ih (copies.elides elidable.tidy elidable'.tidy first first' same)
          (elidable.elides first) (elidable'.elides first') rest' related

/-- Visits to corresponding blocks absorb corresponding blocks. -/
theorem Copies.visited (copies : Copies R g g') (mergeable : g.Mergeable) (mergeable' : g'.Mergeable)
    (visited : Visited h n g g₁) (visited' : Visited h' n' g' g₁') (same : R h h') :
    n = n' ∧ Copies R g₁ g₁' := by
  induction visited generalizing n' g' with
  | stop settled =>
    cases visited' with
    | stop => exact ⟨rfl, copies⟩
    | step first' =>
      -- there is something to absorb in both graphs or in neither, so visits end together
      obtain ⟨next, -, merges⟩ := copies.swap.merges mergeable.tidy same first'.merges
      exact absurd merges (settled next)
  | step first _ ih =>
    obtain ⟨next', behind, merges⟩ := copies.merges mergeable'.tidy same first.merges
    cases visited' with
    | stop settled => exact absurd merges (settled next')
    | step first' rest' =>
      obtain rfl := first'.merges.flow_iff.1 (merges.flow_iff.2 rfl)
      obtain ⟨count, copies'⟩ := ih
        (copies.absorbs mergeable.tidy mergeable'.tidy first first' same behind)
        (mergeable.absorbs first) (mergeable'.absorbs first') rest'
      exact ⟨congrArg (· + 1) count, copies'⟩

theorem Copies.merged (copies : Copies R g g') (mergeable : g.Mergeable) (mergeable' : g'.Mergeable)
    (merged : Merged l n g g₁) (merged' : Merged l' n' g' g₁') (related : List.Forall₂ R l l') :
    n = n' ∧ Copies R g₁ g₁' := by
  induction merged generalizing l' n' g' with
  | nil =>
    cases related
    cases merged'
    exact ⟨rfl, copies⟩
  | gone dead _ ih =>
    cases related with
    | cons same related =>
      have alive := copies.isSome_iff same
      cases merged' with
      | gone _ rest' => exact ih copies mergeable mergeable' rest' related
      | visit alive' => simp [dead, alive'] at alive
  | visit alive' first _ ih =>
    cases related with
    | cons same related =>
      have alive := copies.isSome_iff same
      cases merged' with
      | gone dead => simp [dead, alive'] at alive
      | visit _ first' rest' =>
        obtain ⟨rfl, copies'⟩ := copies.visited mergeable mergeable' first first' same
        obtain ⟨rfl, copies''⟩ := ih copies' (mergeable.visited first) (mergeable'.visited first')
          rest' related
        exact ⟨rfl, copies''⟩

end Graph

end Flowgraph
