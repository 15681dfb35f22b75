import Flowgraph.Proofs.Absorption
import Flowgraph.Proofs.Elision
import Flowgraph.Proofs.Merging

/-!
# Walks through a graph

A walk leads from a block to the exit.  It writes the fragments of every block that it visits, and
makes one choice for every bare keyword among them; the last choice made in a block says where it
goes from there.  Bypassing and merging change the blocks that are visited, but not what a walk from
a block that stays does.
-/

namespace Flowgraph

namespace Block

/-- Where control goes from a block after the last choice made in it. -/
def next? (b : Block) (choice : Option Bool) : Option Nat :=
  match b.thenTarget, b.loopExit, choice with
  | some thenArm, _, some choice => if choice then some thenArm else b.elseTarget
  | none, some after, some choice =>
    if choice then (b.successors.erase after).first? else some after
  | none, none, _ => b.successors.first?
  | _, _, none => none

/-- The successors and the targets say where control goes. -/
theorem Ends.next? {x : Block} {e : Ending Nat} (ends : x.Ends e) (choice : Option Bool) :
    x.next? choice = e.next? Graph.exit choice := by
  cases ends with
  | goes successors noThen noElse noExit =>
    unfold Block.next?
    rw [noThen, noExit, successors]
    rfl
  | branches successors isThen isElse noExit =>
    unfold Block.next?
    rw [isThen, isElse]
    rcases choice with _ | _ | _ <;> rfl
  | @loops body after apart successors noThen noElse isExit =>
    have first : (x.successors.erase after).first? = some body := by
      have only : (x.successors.erase after).toList.Perm [body] := by
        refine (List.perm_ext_iff_of_nodup (x.successors.erase after).nodup (by simp)).2 fun v => ?_
        rw [← OrderedSet.mem_iff, OrderedSet.mem_erase, successors, List.mem_singleton]
        constructor
        · rintro ⟨other, rfl | rfl⟩
          · rfl
          · exact absurd rfl other
        · rintro rfl
          exact ⟨apart, .inl rfl⟩
      rw [OrderedSet.first?, List.perm_singleton.1 only]
      rfl
    unfold Block.next?
    rw [noThen, isExit]
    rcases choice with _ | _ | _
    · rfl
    · rfl
    · exact first

end Block

namespace Ending

theorem mem_targets {α : Type} {stop a : α} {e : Ending α} {choice : Option Bool}
    (leads : e.next? stop choice = some a) : a ∈ e.targets stop := by
  cases e with
  | goes | returns =>
    cases leads
    simp [targets]
  | branches | loops => rcases choice with _ | _ | _ <;> cases leads <;> simp [targets]

theorem exists_next? {α : Type} (e : Ending α) (stop : α) {D : List Bool}
    (asked : e.decides → 0 < D.length) : ∃ a, e.next? stop D.getLast? = some a := by
  cases e with
  | goes | returns => exact ⟨_, rfl⟩
  | branches | loops =>
    have filled : D ≠ [] := List.ne_nil_of_length_pos (asked rfl)
    rw [List.getLast?_eq_getLast_of_ne_nil filled]
    exact ⟨_, rfl⟩

/-- An ending that decides needs a choice of its own; one that does not needs none. -/
theorem next?_append {α : Type} {stop : α} {e : Ending α} {D D' : List Bool}
    (asked : e.decides → 0 < D'.length) :
    e.next? stop (D ++ D').getLast? = e.next? stop D'.getLast? := by
  cases e with
  | goes | returns => rfl
  | branches | loops =>
    have filled : D' ≠ [] := List.ne_nil_of_length_pos (asked rfl)
    rw [List.getLast?_append_of_ne_nil D filled]

end Ending

namespace Graph

/-- From a block control gets to the exit with these choices and these fragments.  The entry holds no
text, so nothing is done there. -/
inductive Walks (g : Graph) : Nat → List Bool → List String → Prop where
  | exit : Walks g exit [] []
  | visit {h next : Nat} {b : Block} {D D' : List Bool} {F : List String}
      (found : g.block? h = some b) (choices : D.length = Fragment.choices b.lines)
      (leads : b.next? D.getLast? = some next) (rest : Walks g next D' F) :
      Walks g h (D ++ D') (b.lines ++ F)

variable {g g' : Graph} {h next k u : Nat} {x y : Block} {e : Ending Nat} {D D' : List Bool}
  {F F' : List String}

theorem live_of_block {b : Block} (found : g.block? h = some b) (alive : (g.live? h).isSome) :
    g.live? h = some b.core := by
  obtain ⟨x, known⟩ := Option.isSome_iff_exists.1 alive
  cases (live?_eq_some.1 known).1.symm.trans (core?_eq_some.2 ⟨b, found, rfl⟩)
  exact known

/-- A visit to a live block. -/
theorem walks_of_live (known : g.live? h = some x) (choices : D.length = Fragment.choices x.lines)
    (leads : x.next? D.getLast? = some next) (rest : g.Walks next D' F) :
    g.Walks h (D ++ D') (x.lines ++ F) := by
  obtain ⟨b, found, rfl⟩ := core?_eq_some.1 (live?_eq_some.1 known).1
  exact Walks.visit (b := b) found choices leads rest

/-- From a live block control goes along one of its edges. -/
theorem Tidy.leads (tidy : g.Tidy) (known : g.live? h = some x) {choice : Option Bool}
    (leads : x.next? choice = some next) :
    ∃ e, x.Ends e ∧ (e.decides → x.kind = .body ∧ 0 < Fragment.choices x.lines) ∧
      e.next? Graph.exit choice = some next ∧ g.Flow h next ∧ (g.live? next).isSome := by
  have other : h ≠ Graph.exit := by
    rintro rfl
    cases known.symm.trans tidy.exit
    cases leads
  obtain ⟨e, ends, asked⟩ := tidy.ends_of_live known other
  rw [ends.next?] at leads
  have flow : g.Flow h next := ⟨x, known, ends.mem_successors.2 (Ending.mem_targets leads)⟩
  exact ⟨e, ends, asked, leads, flow, (tidy.flow h next flow).2⟩

namespace Elides

variable (tidy : g.Tidy) (apart : g.Apart) (elides : g.Elides h next g')

include elides

/-- Nothing is done in the empty block. -/
theorem walks_past (walks : g.Walks (past h next u) D F) : g.Walks u D F := by
  by_cases same : u = h
  · subst same
    obtain ⟨x, known, -, empty, ends⟩ := elides.empty
    rw [past_self] at walks
    have leads : x.next? none = some next := ends.next? none
    have visit := walks_of_live known (D := []) (by simp [empty]) leads walks
    simpa [empty] using visit
  · rwa [past_of_ne same] at walks

include tidy apart

theorem walks_of_walks (walks : g.Walks u D F) (alive : (g.live? u).isSome) :
    g'.Walks (past h next u) D F := by
  induction walks with
  | exit =>
    rw [past_of_ne (elides.exit_ne tidy)]
    exact .exit
  | @visit u v b D D' F found choices leads rest ih =>
    have known := live_of_block found alive
    obtain ⟨e, ends, asked, leads, -, alive'⟩ := tidy.leads known leads
    have walks := ih alive'
    by_cases same : u = h
    · subst same
      obtain ⟨x, known', -, empty, ends'⟩ := elides.empty
      cases known.symm.trans known'
      have empty : b.lines = [] := empty
      -- nothing is chosen in the empty block
      obtain rfl : D = [] := List.length_eq_zero_iff.1 (by rw [choices, empty]; rfl)
      obtain rfl := ends.unique ends'
      cases leads
      rw [past_of_ne elides.other] at walks
      simpa [empty] using walks
    · rw [past_of_ne same]
      have ends' := elides.ends_bypassing apart known ends fun decides => (asked decides).1
      have known' : g'.live? u = some (b.core.bypassing h next) := by
        rw [elides.live_other tidy same, known]
        rfl
      have leads' : (b.core.bypassing h next).next? D.getLast? = some (past h next v) := by
        rw [ends'.next?, Ending.next?_map _ (past_of_ne (elides.exit_ne tidy)), leads]
        rfl
      have visit := walks_of_live known' (by rwa [Block.lines_bypassing]) leads' walks
      rwa [Block.lines_bypassing] at visit

theorem walks_of_walks' (walks : g'.Walks u D F) (alive : (g'.live? u).isSome) : g.Walks u D F := by
  induction walks with
  | exit => exact .exit
  | @visit u v b D D' F found choices leads rest ih =>
    have known := live_of_block found alive
    obtain ⟨-, -, -, -, flow, alive'⟩ := (elides.keeps_tidy tidy apart).leads known leads
    have walks := ih alive'
    obtain ⟨-, z, known', same⟩ := elides.live_inv tidy known
    have other : u ≠ exit := by
      rintro rfl
      exact (elides.keeps_tidy tidy apart).not_flow_exit flow
    obtain ⟨e, ends, asked⟩ := tidy.ends_of_live known' other
    have ends' := elides.ends_bypassing apart known' ends fun decides => (asked decides).1
    -- The block leads past the empty block now, so it led to a place from which control gets there.
    have moved : (e.next? exit D.getLast?).map (past h next) = some v := by
      rw [← Ending.next?_map _ (past_of_ne (elides.exit_ne tidy)), ← ends'.next?, ← same]
      exact leads
    obtain ⟨w, leads', rfl⟩ := Option.map_eq_some_iff.1 moved
    have lines : b.lines = z.lines := (congrArg Block.lines same).trans Block.lines_bypassing
    rw [lines] at choices ⊢
    exact walks_of_live known' choices ((ends.next? _).trans leads') (elides.walks_past walks)

theorem walks_entry_iff : g'.Walks entry D F ↔ g.Walks entry D F := by
  obtain ⟨first, known⟩ := tidy.entry
  obtain ⟨first', known'⟩ := (elides.keeps_tidy tidy apart).entry
  constructor
  · exact fun walks => elides.walks_of_walks' tidy apart walks (by simp [known'])
  · intro walks
    have moved := elides.walks_of_walks tidy apart walks (by simp [known])
    rwa [past_of_ne (elides.entry_ne tidy)] at moved

end Elides

theorem Elidable.walks_iff {hs : List Nat} (elidable : g.Elidable) (elided : Elided hs g g') :
    g'.Walks entry D F ↔ g.Walks entry D F := by
  induction elided with
  | nil => rfl
  | cons first _ ih =>
    rw [ih (elidable.elides first), first.walks_entry_iff elidable.tidy elidable.apart]

/-- Whatever choices are made in a block that can absorb another, control goes to that block. -/
theorem Merges.leads_next (tidy : g.Tidy) (merges : g.Merges h next) (known : g.live? h = some x)
    (choices : D.length = Fragment.choices x.lines) : x.next? D.getLast? = some next := by
  obtain ⟨y, known', body, -⟩ := merges.leads
  cases known.symm.trans known'
  obtain ⟨e, ends, asked⟩ := tidy.ends h x known body
  obtain ⟨v, leads⟩ := e.exists_next? Graph.exit fun decides => choices ▸ asked decides
  have flow : g.Flow h v := ⟨x, known, ends.mem_successors.2 (Ending.mem_targets leads)⟩
  rw [ends.next?, leads, merges.flow_iff.1 flow]

namespace Absorbs

variable (tidy : g.Tidy) (absorbs : g.Absorbs h next g')

include tidy absorbs

/-- What is done in the absorbed block is done behind what is done in the block that absorbs it. -/
theorem walks_of_walks (walks : g.Walks u D F) (alive : (g.live? u).isSome) :
    (u ≠ next → g'.Walks u D F) ∧
      (u = next → ∀ x D', g.live? h = some x → D'.length = Fragment.choices x.lines →
        g'.Walks h (D' ++ D) (x.lines ++ F)) := by
  induction walks with
  | exit => exact ⟨fun _ => .exit, fun eq => absurd eq.symm absorbs.merges.inner⟩
  | @visit u v b D D' F found choices leads rest ih =>
    have known := live_of_block found alive
    obtain ⟨e, ends, asked, leads', flow, alive'⟩ := tidy.leads known leads
    obtain ⟨stay, behind⟩ := ih alive'
    refine ⟨fun away => ?_, ?_⟩
    · by_cases self : u = h
      · subst self
        exact behind (absorbs.merges.flow_iff.1 flow) b.core D known choices
      -- only `h` leads to the absorbed block
      · have target : v ≠ next := by
          rintro rfl
          exact self (absorbs.merges.alone u flow)
        rw [← absorbs.live_other self away] at known
        exact walks_of_live (x := b.core) known choices leads (stay target)
    · rintro rfl x D₀ here asked'
      have target : v ≠ u := by
        rintro rfl
        exact absorbs.merges.other (absorbs.merges.alone v flow)
      have grown := absorbs.live_self here known
      have leads'' : (x.merged b.core).next? (D₀ ++ D).getLast? = some v := by
        rw [(Block.ends_merged.2 ends).next?, Ending.next?_append, leads']
        intro decides
        rw [choices]
        exact (asked decides).2
      have visit := walks_of_live (D := D₀ ++ D) grown
        (by simp [Block.merged, asked', choices, Block.core]) leads'' (stay target)
      simpa [Block.merged, Block.core] using visit

theorem walks_of_walks' (walks : g'.Walks u D F) (alive : (g'.live? u).isSome) : g.Walks u D F := by
  induction walks with
  | exit => exact .exit
  | @visit u v b D D' F found choices leads rest ih =>
    have known := live_of_block found alive
    obtain ⟨e, ends, asked, leads', flow, alive'⟩ := (absorbs.keeps_tidy tidy).leads known leads
    have walks := ih alive'
    have away : u ≠ next := by
      rintro rfl
      exact absorbs.not_flow_next tidy.woven flow
    by_cases self : u = h
    · subst self
      obtain ⟨x, here, body, only⟩ := absorbs.merges.leads
      obtain ⟨y, there, kind⟩ := absorbs.merges.target tidy.woven
      have same := Option.some.inj (known.symm.trans (absorbs.live_self here there))
      have ends' : y.Ends e := Block.ends_merged.1 (same ▸ ends)
      have lines : b.lines = x.lines ++ y.lines := congrArg Block.lines same
      rw [lines, Fragment.choices_append] at choices
      -- The choices are those made in the first block and those made in the second.
      obtain ⟨D₁, D₂, rfl, first, second⟩ : ∃ D₁ D₂, D = D₁ ++ D₂ ∧
          D₁.length = Fragment.choices x.lines ∧ D₂.length = Fragment.choices y.lines :=
        ⟨D.take (Fragment.choices x.lines), D.drop (Fragment.choices x.lines),
          (List.take_append_drop ..).symm, by simp; omega, by simp; omega⟩
      obtain ⟨e', ends'', asked'⟩ := tidy.ends next y there kind
      obtain rfl := ends'.unique ends''
      have own : e.decides → 0 < D₂.length := fun decides => second ▸ asked' decides
      rw [lines, List.append_assoc, List.append_assoc]
      refine walks_of_live here first (absorbs.merges.leads_next tidy here first) ?_
      refine walks_of_live there second ?_ walks
      rw [ends'.next?, ← leads', Ending.next?_append own]
    · rw [absorbs.live_other self away] at known
      exact walks_of_live (x := b.core) known choices leads walks

theorem walks_entry_iff : g'.Walks entry D F ↔ g.Walks entry D F := by
  obtain ⟨first, known⟩ := tidy.entry
  obtain ⟨first', known'⟩ := (absorbs.keeps_tidy tidy).entry
  constructor
  · exact fun walks => absorbs.walks_of_walks' tidy walks (by simp [known'])
  · exact fun walks => (absorbs.walks_of_walks tidy walks (by simp [known])).1
      (absorbs.entry_ne tidy.woven).2

end Absorbs

theorem Mergeable.walks_iff_visited {n : Nat} (mergeable : g.Mergeable) (visited : Visited h n g g') :
    g'.Walks entry D F ↔ g.Walks entry D F := by
  induction visited with
  | stop => rfl
  | step first _ ih => rw [ih (mergeable.absorbs first), first.walks_entry_iff mergeable.tidy]

theorem Mergeable.walks_iff {l : List Nat} {n : Nat} (mergeable : g.Mergeable)
    (merged : Merged l n g g') : g'.Walks entry D F ↔ g.Walks entry D F := by
  induction merged with
  | nil => rfl
  | gone _ _ ih => exact ih mergeable
  | visit _ first _ ih => rw [ih (mergeable.visited first), mergeable.walks_iff_visited first]

end Graph

end Flowgraph
