import Flowgraph.Proofs.Merging
import Mathlib.Data.Set.Card
import Mathlib.Tactic.IntervalCases

/-!
# Merging collapses chains

The third pass on its own, on graphs of any shape.  Block `b` is `Chained` to `p` if each is the only
way on from or to the other.  The blocks that are chained to another one lie in chains, and what is
left of a chain is its first block, which holds the text of all of them and ends as the last one did.

One step of the pass takes the second block out of a chain, wherever the chain begins and wherever the
pass stands in the table.  What carries the induction is that a step changes the chains by this block
only: `spread` puts it back.  A chain could close on itself, but then nothing would lead there from
the entry; the last block of a chain may well lead to the first one if another block does so too.
-/

namespace Flowgraph

open Relation

namespace Graph

variable {g g' g₁ : Graph} {b h k next n p u v : Nat} {x y : Block} {l l' : List Nat}
  {chain : Nat → List Nat}

/-- The body block `p` leads to the body block `b` only, and nothing else leads there. -/
structure Chained (g : Graph) (p b : Nat) : Prop where
  first : ∃ x, g.live? p = some x ∧ x.kind = .body
  second : ∃ y, g.live? b = some y ∧ y.kind = .body
  other : p ≠ b
  leads : ∀ v, g.Flow p v ↔ v = b
  entered : ∀ u, g.Entered u b ↔ u = p

/-- Block `b` is not the first one of its chain. -/
def Absorbable (g : Graph) (b : Nat) : Prop := ∃ p, g.Chained p b

/-- The chain from block `h` on, as far as it goes. -/
inductive Chain (g : Graph) : Nat → List Nat → Prop where
  | last {h : Nat} (stops : ∀ b, ¬ g.Chained h b) : Chain g h [h]
  | link {h b : Nat} {l : List Nat} (chained : g.Chained h b) (rest : Chain g b l) :
      Chain g h (h :: l)

/-- The graph `g'` is what is left of `g` when every chain is one block, the first one of it.
`chain` gives the chains that begin at the blocks that are left. -/
structure Collapsed (g : Graph) (chain : Nat → List Nat) (g' : Graph) : Prop where
  reworks : g.Reworks g'
  remains : ∀ h, (g'.live? h).isSome ↔ (g.live? h).isSome ∧ ¬ g.Absorbable h
  chains : ∀ h, (g'.live? h).isSome → ∀ l, g.Chain h l ↔ l = chain h
  holds : ∀ h y, g'.live? h = some y → ∃ x last z, g.live? h = some x ∧
    (chain h).getLast? = some last ∧ g.live? last = some z ∧
    y = { x with
      lines := (chain h).flatMap g.text
      successors := z.successors
      thenTarget := z.thenTarget
      elseTarget := z.elseTarget
      loopExit := z.loopExit }
  all : (g'.roll.flatMap chain).Perm g.roll
  linked : g'.Linked
  settled : ∀ b, ¬ g'.Absorbable b

/-! ## Chains -/

/-- A block can absorb what is chained to it. -/
theorem Woven.merges_iff (woven : g.Woven) : g.Merges p b ↔ g.Chained p b := by
  constructor
  · intro merges
    obtain ⟨x, known, body, -⟩ := merges.leads
    obtain ⟨y, known', body'⟩ := merges.target woven
    refine ⟨⟨x, known, body⟩, ⟨y, known', body'⟩, merges.other.symm, fun v => merges.flow_iff,
      fun u => ⟨fun entered => ?_, ?_⟩⟩
    · exact merges.alone u (woven.linked.entered u b (by simp [known']) entered)
    · rintro rfl
      exact (woven.linked.flow u b (merges.flow_iff.2 rfl)).1
  · intro chained
    obtain ⟨x, known, body⟩ := chained.first
    obtain ⟨y, known', body'⟩ := chained.second
    have sole : x.successors = .singleton b := OrderedSet.eq_singleton fun v => by
      rw [← chained.leads v, Flow]
      simp [known]
    refine ⟨⟨x, known, body, by rw [sole, OrderedSet.toList_singleton]⟩, ?_, chained.other.symm,
      fun u flow => (chained.entered u).1 (woven.linked.flow u b flow).1⟩
    rintro rfl
    exact absurd (woven.inside known' body') (by decide)

/-- From a block on there is one chain. -/
theorem Chain.unique (first : g.Chain h l) (second : g.Chain h l') : l = l' := by
  induction first generalizing l' with
  | last stops =>
    cases second with
    | last => rfl
    | link chained => exact absurd chained (stops _)
  | @link h b l chained _ ih =>
    cases second with
    | last stops => exact absurd chained (stops b)
    | link chained' rest =>
      obtain rfl := (chained.leads _).1 ((chained'.leads _).2 rfl)
      rw [ih rest]

theorem Chain.mem_live (chain : g.Chain h l) (alive : (g.live? h).isSome) :
    ∀ k ∈ l, (g.live? k).isSome := by
  induction chain with
  | last => simpa using alive
  | @link h b l chained _ ih =>
    obtain ⟨y, known, -⟩ := chained.second
    simpa [alive] using ih (by simp [known])

/-- No chain closes on itself, since it could not be entered from without. -/
theorem Collapsible.not_circle (collapsible : g.Collapsible) : ¬ TransGen g.Chained h h := by
  intro circle
  -- What leads to a block of the circle is the block before it there, so a way to the circle lies on
  -- it from the start; but nothing is chained to the entry.
  have back : ∀ u, ReflTransGen g.Flow u h → TransGen g.Chained u u := by
    intro u way
    induction way using ReflTransGen.head_induction_on with
    | refl => exact circle
    | @head u w flow _ ih =>
      obtain ⟨p, way, chained⟩ := TransGen.tail'_iff.1 ih
      obtain rfl := (chained.entered u).1 (collapsible.linked.flow u w flow).1
      exact TransGen.head' chained way
  obtain ⟨_, chained, -⟩ := TransGen.head'_iff.1 circle
  obtain ⟨x, known, body⟩ := chained.first
  obtain ⟨_, chained', -⟩ := TransGen.head'_iff.1 (back entry (collapsible.rooted h x known body))
  obtain ⟨y, known', body'⟩ := chained'.first
  exact absurd (collapsible.inside known' body') (by decide)

/-! ## One step -/

/-- Where the block `next` was taken in by `h`, put it back behind `h`. -/
def spread (h next k : Nat) : List Nat := if k = h then [h, next] else [k]

theorem spread_self : spread h next h = [h, next] := if_pos rfl

theorem spread_of_ne (away : k ≠ h) : spread h next k = [k] := if_neg away

namespace Absorbs

variable (woven : g.Woven) (absorbs : g.Absorbs h next g₁)

include woven absorbs

/-- Behind `h` comes what came behind `next`. -/
theorem chained_self : g₁.Chained h b ↔ g.Chained next b ∧ b ≠ h := by
  rw [← (absorbs.keeps_woven woven).merges_iff, ← woven.merges_iff]
  obtain ⟨x, known, body, -⟩ := absorbs.merges.leads
  obtain ⟨y, known', body'⟩ := absorbs.merges.target woven
  have here := absorbs.live_self known known'
  constructor
  · intro merges
    obtain ⟨z, found, -, leads⟩ := merges.leads
    cases here.symm.trans found
    have target : b ≠ next := by
      rintro rfl
      exact absorbs.not_flow_to_next woven (merges.flow_iff.2 rfl)
    refine ⟨⟨⟨y, known', body', leads⟩, merges.inner, target, fun u flow => ?_⟩, merges.other⟩
    by_contra away
    have self : u ≠ h := by
      rintro rfl
      exact target (absorbs.merges.flow_iff.1 flow)
    exact self (merges.alone u ((absorbs.flow_other self away).2 flow))
  · rintro ⟨merges, other⟩
    obtain ⟨z, found, -, leads⟩ := merges.leads
    cases known'.symm.trans found
    refine ⟨⟨_, here, body, leads⟩, merges.inner, other, fun u flow => ?_⟩
    by_contra self
    have away : u ≠ next := by
      rintro rfl
      exact absorbs.not_flow_next woven flow
    exact away (merges.alone u ((absorbs.flow_other self away).1 flow))

/-- Behind any other block comes what came there before. -/
theorem chained_other (self : p ≠ h) (away : p ≠ next) : g₁.Chained p b ↔ g.Chained p b := by
  rw [← (absorbs.keeps_woven woven).merges_iff, ← woven.merges_iff]
  refine ⟨absorbs.merges_of_merges woven self, fun merges => ?_⟩
  obtain ⟨x, known, body, leads⟩ := merges.leads
  refine ⟨⟨x, absorbs.live_other self away ▸ known, body, leads⟩, merges.inner, merges.other,
    fun u flow => ?_⟩
  by_cases same : u = h
  · subst same
    exact absurd (merges.alone next ((absorbs.flow_self woven).1 flow)).symm away
  · by_cases same' : u = next
    · exact absurd (same' ▸ flow) (absorbs.not_flow_next woven)
    · exact merges.alone u ((absorbs.flow_other same same').1 flow)

theorem not_chained_next : ¬ g₁.Chained next b := fun chained => by
  obtain ⟨x, known, -⟩ := chained.first
  cases (absorbs.live_next woven).symm.trans known

theorem chained : g.Chained h next := woven.merges_iff.1 absorbs.merges

/-- What a block holds after the step is what it and the block put back behind it held. -/
theorem holds (found : g₁.live? k = some y) : ∃ x last z, g.live? k = some x ∧
    (spread h next k).getLast? = some last ∧ g.live? last = some z ∧
    y = { x with
      lines := (spread h next k).flatMap g.text
      successors := z.successors
      thenTarget := z.thenTarget
      elseTarget := z.elseTarget
      loopExit := z.loopExit } := by
  by_cases self : k = h
  · subst self
    obtain ⟨x, known, -⟩ := absorbs.merges.leads
    obtain ⟨z, known', -⟩ := absorbs.merges.target woven
    cases found.symm.trans (absorbs.live_self known known')
    refine ⟨x, next, z, known, by rw [spread_self]; rfl, known', ?_⟩
    simp [spread_self, text_of_live known, text_of_live known', Block.merged]
  · have away : k ≠ next := (absorbs.live_inv woven found).1
    rw [absorbs.live_other self away] at found
    refine ⟨y, k, y, found, by rw [spread_of_ne self]; rfl, found, ?_⟩
    simp [spread_of_ne self, text_of_live found]

theorem text_eq (alive : (g₁.live? k).isSome) : g₁.text k = (spread h next k).flatMap g.text := by
  obtain ⟨y, found⟩ := Option.isSome_iff_exists.1 alive
  obtain ⟨x, last, z, -, -, -, rfl⟩ := absorbs.holds woven found
  rw [text_of_live found]

end Absorbs

namespace Collapsible

variable (collapsible : g.Collapsible) (absorbs : g.Absorbs h next g₁)

include collapsible absorbs

/-- One block less can be absorbed. -/
theorem absorbable_iff : g.Absorbable b ↔ b = next ∨ g₁.Absorbable b := by
  have woven := collapsible.toWoven
  constructor
  · rintro ⟨p, chained⟩
    by_cases self : p = h
    · subst self
      exact .inl ((absorbs.chained woven).leads b |>.1 ((chained.leads b).2 rfl))
    by_cases away : p = next
    · subst away
      -- Behind `next` comes what is behind `h` now, unless the two make a circle.
      refine .inr ⟨h, (absorbs.chained_self woven).2 ⟨chained, ?_⟩⟩
      rintro rfl
      exact collapsible.not_circle (.tail (.single (absorbs.chained woven)) chained)
    · exact .inr ⟨p, (absorbs.chained_other woven self away).2 chained⟩
  · rintro (rfl | ⟨p, chained⟩)
    · exact ⟨h, absorbs.chained woven⟩
    by_cases self : p = h
    · subst self
      exact ⟨next, ((absorbs.chained_self woven).1 chained).1⟩
    · have away : p ≠ next := by
        rintro rfl
        exact absorbs.not_chained_next woven chained
      exact ⟨p, (absorbs.chained_other woven self away).1 chained⟩

/-- A chain with the absorbed block put back was a chain before. -/
theorem chain_spread (chain : g₁.Chain k l) (there : k ≠ next) :
    g.Chain k (l.flatMap (spread h next)) := by
  have woven := collapsible.toWoven
  induction chain with
  | @last k stops =>
    rw [List.flatMap_singleton]
    by_cases self : k = h
    · subst self
      rw [spread_self]
      refine .link (absorbs.chained woven) (.last fun b chained => stops b ?_)
      refine (absorbs.chained_self woven).2 ⟨chained, ?_⟩
      rintro rfl
      exact collapsible.not_circle (.tail (.single (absorbs.chained woven)) chained)
    · rw [spread_of_ne self]
      exact .last fun b chained => stops b ((absorbs.chained_other woven self there).2 chained)
  | @link k b l chained _ ih =>
    have target : b ≠ next := by
      rintro rfl
      exact absorbs.not_flow_to_next woven ((chained.leads b).2 rfl)
    rw [List.flatMap_cons]
    by_cases self : k = h
    · subst self
      rw [spread_self]
      exact .link (absorbs.chained woven)
        (.link ((absorbs.chained_self woven).1 chained).1 (ih target))
    · rw [spread_of_ne self]
      exact .link ((absorbs.chained_other woven self there).1 chained) (ih target)

/-- The blocks on the roll are those that are left and the one that is put back. -/
theorem spread_perm : (g₁.roll.flatMap (spread h next)).Perm g.roll := by
  have nodup := (collapsible.absorbs absorbs).roll_nodup
  have member : h ∈ g₁.roll := by
    obtain ⟨x, known, body, -⟩ := absorbs.merges.leads
    obtain ⟨y, known', -⟩ := absorbs.merges.target collapsible.toWoven
    exact (collapsible.absorbs absorbs).mem_roll (absorbs.live_self known known') body
  have others : (g₁.roll.erase h).flatMap (spread h next) = g₁.roll.erase h := by
    rw [List.flatMap_congr (g := fun k => [k]) fun k inside => spread_of_ne ?_, List.flatMap_singleton']
    rintro rfl
    exact nodup.not_mem_erase inside
  refine ((List.perm_cons_erase member).flatMap_right _).trans ?_
  rw [List.flatMap_cons, others, spread_self]
  refine (List.Perm.swap next h (g₁.roll.erase h)).trans ?_
  exact ((List.perm_cons_erase member).symm.cons next).trans (collapsible.roll_perm absorbs).symm

theorem absorbable_ncard :
    {b | g.Absorbable b}.ncard = {b | g₁.Absorbable b}.ncard + 1 := by
  have same : {b | g.Absorbable b} = insert next {b | g₁.Absorbable b} :=
    Set.ext fun b => collapsible.absorbable_iff absorbs
  have bounded : {b | g₁.Absorbable b} ⊆ {b | b < g₁.arena.size} := by
    rintro b ⟨p, chained⟩
    obtain ⟨y, known, -⟩ := chained.second
    exact live_lt known
  have fresh : next ∉ {b | g₁.Absorbable b} := by
    rintro ⟨p, chained⟩
    obtain ⟨y, known, -⟩ := chained.second
    cases (absorbs.live_next collapsible.toWoven).symm.trans known
  rw [same, Set.ncard_insert_of_notMem fresh ((Set.finite_lt_nat _).subset bounded)]

end Collapsible

/-! ## The pass -/

/-- What a block holds besides its text is what the last block of its chain ends with, also when a
block was put back into the chain. -/
theorem Collapsible.collapsed (collapsible : g.Collapsible) (absorbs : g.Absorbs h next g₁)
    (rest : g₁.Collapsed chain g') :
    g.Collapsed (fun k => (chain k).flatMap (spread h next)) g' := by
  have woven := collapsible.toWoven
  have left : ∀ k, (g'.live? k).isSome → (g₁.live? k).isSome := fun k alive =>
    ((rest.remains k).1 alive).1
  have chains : ∀ k, (g'.live? k).isSome → g₁.Chain k (chain k) := fun k alive =>
    (rest.chains k alive _).2 rfl
  refine ⟨absorbs.absorbed.reworks.trans rest.reworks, fun k => ?_, fun k alive l => ?_,
    fun k y found => ?_, ?_, rest.linked, rest.settled⟩
  · rw [rest.remains, absorbs.isSome_iff woven, collapsible.absorbable_iff absorbs, not_or]
    tauto
  · -- The chain of the smaller graph is one of the larger when the block is put back.
    have away := ((absorbs.isSome_iff woven).1 (left k alive)).1
    have whole := collapsible.chain_spread absorbs (chains k alive) away
    exact ⟨fun other => other.unique whole, fun eq => eq ▸ whole⟩
  · have alive : (g'.live? k).isSome := by simp [found]
    -- The text comes from the whole chain, the rest from its first and from its last block, and
    -- either of these may be the one that has grown.
    obtain ⟨x₁, last₁, z₁, found₁, ends, known₁, rfl⟩ := rest.holds k y found
    obtain ⟨x, -, -, known, -, -, rfl⟩ := absorbs.holds woven found₁
    obtain ⟨-, last, z, -, ends', known', rfl⟩ := absorbs.holds woven known₁
    refine ⟨x, last, z, known, ?_, known', ?_⟩
    · obtain ⟨front, eq⟩ := List.getLast?_eq_some_iff.1 ends
      simp [eq, List.getLast?_append, ends']
    · have text : (chain k).flatMap g₁.text = ((chain k).flatMap (spread h next)).flatMap g.text := by
        rw [List.flatMap_assoc]
        exact List.flatMap_congr fun j member =>
          absorbs.text_eq woven ((chains k alive).mem_live (left k alive) j member)
      rw [text]
  · rw [← List.flatMap_assoc]
    exact (rest.all.flatMap_right _).trans (collapsible.spread_perm absorbs)

/-- Where nothing can be absorbed, every block is a chain. -/
theorem Collapsible.collapsed_self (collapsible : g.Collapsible) (settled : ∀ b, ¬ g.Absorbable b) :
    g.Collapsed (fun h => [h]) g := by
  have chain : ∀ h, g.Chain h [h] := fun h => .last fun b chained => settled b ⟨h, chained⟩
  refine ⟨.refl g, fun h => (and_iff_left (settled h)).symm, fun h _ l => ?_, fun h x known => ?_, ?_,
    collapsible.linked, settled⟩
  · exact ⟨fun other => other.unique (chain h), fun eq => eq ▸ chain h⟩
  · exact ⟨x, h, x, known, rfl, known, by simp [text_of_live known]⟩
  · rw [List.flatMap_singleton']

theorem Collapsible.collapsed_visited {m : Nat} (collapsible : g.Collapsible)
    (visited : Visited h n g g₁) (rest : ∃ chain, g₁.Collapsed chain g')
    (count : {b | g₁.Absorbable b}.ncard = m) :
    (∃ chain, g.Collapsed chain g') ∧ {b | g.Absorbable b}.ncard = n + m := by
  induction visited with
  | stop => exact ⟨rest, by rw [count, Nat.zero_add]⟩
  | step first _ ih =>
    obtain ⟨⟨chain, collapsed⟩, count⟩ := ih (collapsible.absorbs first) rest count
    refine ⟨⟨_, collapsible.collapsed first collapsed⟩, ?_⟩
    rw [collapsible.absorbable_ncard first, count]
    omega

theorem Collapsible.collapsed_merged (collapsible : g.Collapsible) (merged : Merged l n g g')
    (settled : ∀ b, ¬ g'.Absorbable b) :
    (∃ chain, g.Collapsed chain g') ∧ {b | g.Absorbable b}.ncard = n := by
  induction merged with
  | nil g =>
    refine ⟨⟨_, collapsible.collapsed_self settled⟩, ?_⟩
    simp [settled]
  | gone _ _ ih => exact ih collapsible settled
  | visit _ first _ ih =>
    obtain ⟨rest, count⟩ := ih (collapsible.visited first) settled
    exact collapsible.collapsed_visited first rest count

/-- The pass leaves nothing to absorb. -/
theorem Collapsible.not_absorbable (collapsible : g.Collapsible) (merged : Merged g.roll n g g')
    (b : Nat) : ¬ g'.Absorbable b := by
  rintro ⟨p, chained⟩
  refine collapsible.settled merged (k := p) (fun outside next merges => ?_) b
    ((collapsible.merged merged).toWoven.merges_iff.2 chained)
  obtain ⟨x, known, body, -⟩ := merges.leads
  exact outside (collapsible.mem_roll known body)

/-- **Merging collapses the chains**, all of them and nothing else.  The pass ends well and answers
how many blocks were not the first of their chain; no visit needs more fuel than there are blocks.
Nothing is asked of the order of the table. -/
theorem mergeChains_collapses (collapsible : g.Collapsible) :
    ∃ chain g', mergeChains g = .ok {b | g.Absorbable b}.ncard g' ∧ g.Collapsed chain g' ∧
      ∀ fuel, g.arena.size ≤ fuel →
        mergeChainsWithin fuel g = .ok {b | g.Absorbable b}.ncard g' := by
  obtain ⟨n, g', run, merged, enough⟩ := collapsible.mergeChains_run
  obtain ⟨⟨chain, collapsed⟩, rfl⟩ :=
    collapsible.collapsed_merged merged (collapsible.not_absorbable merged)
  exact ⟨chain, g', run, collapsed, enough⟩

/-- A chain that closes on its first block, listed with a block from its middle first. -/
def closedChain : Graph where
  name := "f"
  returnType := ["int"]
  parameters := []
  table := [3, 2, 4]
  arena := #[
    { kind := .entry, successors := .singleton 4 },
    { kind := .exit, predecessors := .singleton 2 },
    { kind := .body, id := some 1, lines := ["if", "(", "c", ")"], predecessors := .singleton 3,
      successors := .insert (.singleton 4) 1, thenTarget := some 4, elseTarget := some 1 },
    { kind := .body, id := some 0, lines := ["b", ";"], predecessors := .singleton 4,
      successors := .singleton 2 },
    { kind := .body, id := some 2, lines := ["a", ";"], predecessors := .insert (.singleton 0) 2,
      successors := .singleton 3 }]

theorem closedChain_flow :
    closedChain.Flow u v ↔ (u, v) ∈ [(0, 4), (4, 3), (3, 2), (2, 4), (2, 1)] := by
  match u with
  | 0 | 1 | 2 | 3 | 4 =>
    simp [Flow, live?, core?, block?, closedChain, Block.core, Block.isAlive, Option.filter]
  | n + 5 => simp [Flow, live?, core?, block?, closedChain]

theorem closedChain_entered :
    closedChain.Entered u v ↔ (u, v) ∈ [(0, 4), (4, 3), (3, 2), (2, 4), (2, 1)] := by
  match v with
  | 0 | 1 | 2 | 3 | 4 => simp [Entered, block?, closedChain]
  | n + 5 => simp [Entered, block?, closedChain]

theorem closedChain_live : (closedChain.live? h).isSome ↔ h < 5 := by
  match h with
  | 0 | 1 | 2 | 3 | 4 => decide
  | n + 5 => simp [live?, core?, block?, closedChain]

theorem closedChain_collapsible : closedChain.Collapsible where
  kinds h x known := by
    have bounded : h < closedChain.arena.size := core?_isSome_iff.1 (by simp [known])
    have low : h < 5 := bounded
    interval_cases h <;> cases known <;> rfl
  source u entered := by
    rw [closedChain_entered] at entered
    simp [entry] at entered
  linked := by
    constructor
    · intro u v flow
      rw [closedChain_flow] at flow
      rw [closedChain_entered, closedChain_live]
      simp at flow ⊢
      omega
    · intro u v _ entered
      rwa [closedChain_flow, ← closedChain_entered]
  bodies := by simp [closedChain, Body, block?]
  listed h x known := by
    have low : h < 5 := closedChain_live.1 (by simp [known])
    interval_cases h <;> cases known <;> decide
  rooted h x known body := by
    have low : h < 5 := closedChain_live.1 (by simp [known])
    have first : ReflTransGen closedChain.Flow entry 4 := .single (by simp [closedChain_flow, entry])
    have second := first.tail (show closedChain.Flow 4 3 by simp [closedChain_flow])
    have third := second.tail (show closedChain.Flow 3 2 by simp [closedChain_flow])
    interval_cases h
    · cases known
      cases body
    · cases known
      cases body
    · exact third
    · exact second
    · exact first

theorem closedChain_chained : closedChain.Chained p b ↔ (p, b) ∈ [(4, 3), (3, 2)] := by
  constructor
  · intro chained
    obtain ⟨x, known, body⟩ := chained.first
    have inside := closedChain_collapsible.inside known body
    have flow := (chained.leads b).2 rfl
    have back := chained.leads 4
    have out := chained.leads 1
    rw [closedChain_flow] at flow back out
    simp at flow back out ⊢
    omega
  · intro member
    have there : ∀ h, 2 ≤ h → h < 5 → ∃ x, closedChain.live? h = some x ∧ x.kind = .body := by
      intro h high low
      interval_cases h <;> exact ⟨_, rfl, rfl⟩
    simp at member
    obtain ⟨rfl, rfl⟩ | ⟨rfl, rfl⟩ := member
    · exact ⟨there 4 (by decide) (by decide), there 3 (by decide) (by decide), by decide,
        by simp [closedChain_flow], by simp [closedChain_entered]⟩
    · exact ⟨there 3 (by decide) (by decide), there 2 (by decide) (by decide), by decide,
        by simp [closedChain_flow], by simp [closedChain_entered]⟩

theorem mergeChains_closedChain :
    closedChain.Collapsible ∧ ∃ chain g', mergeChains closedChain = .ok 2 g' ∧
      closedChain.Collapsed chain g' ∧ chain 4 = [4, 3, 2] ∧ ∃ y, g'.live? 4 = some y ∧
        y.lines = ["a", ";", "b", ";", "if", "(", "c", ")"] ∧ y.thenTarget = some 4 := by
  obtain ⟨chain, g', run, collapsed, -⟩ := mergeChains_collapses closedChain_collapsible
  have absorbable : ∀ b, closedChain.Absorbable b ↔ b = 3 ∨ b = 2 := fun b => by
    simp only [Absorbable, closedChain_chained]
    simp [exists_or]
  have count : {b | closedChain.Absorbable b}.ncard = 2 := by
    simp only [absorbable]
    exact Set.ncard_pair (by decide)
  have alive : (g'.live? 4).isSome := (collapsed.remains 4).2 ⟨by decide, by simp [absorbable]⟩
  have whole : closedChain.Chain 4 [4, 3, 2] :=
    .link (by simp [closedChain_chained]) (.link (by simp [closedChain_chained])
      (.last (by simp [closedChain_chained])))
  have there := (collapsed.chains 4 alive _).1 whole
  obtain ⟨y, found⟩ := Option.isSome_iff_exists.1 alive
  obtain ⟨x, last, z, -, ends, known, rfl⟩ := collapsed.holds 4 y found
  rw [← there] at ends found
  cases ends
  cases known
  exact ⟨closedChain_collapsible, chain, g', count ▸ run, collapsed, there.symm, _, found, rfl, rfl⟩

end Graph

end Flowgraph
