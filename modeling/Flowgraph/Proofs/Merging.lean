import Flowgraph.Proofs.Absorption
import Flowgraph.Proofs.Edits
import Mathlib.Data.List.Nodup
import Mathlib.Data.List.Perm.Subperm
import Mathlib.Data.List.Range

/-!
# Merging leaves nothing to merge

The third pass visits every block of the table once and lets it absorb what it can.  A visit ends
because every step takes a block from the roll, so any fuel that suffices for the roll gives the same
run.  A block that can absorb nothing when it was visited can absorb nothing later either.

The pass needs little of the graph, it is `Collapsible`: the ends of its blocks play no part, and
neither does the order of its table.
-/

namespace Flowgraph

open Edit Relation

namespace Graph

variable {g g' : Graph} {h k next n : Nat} {x y : Block} {l : List Nat}

/-- The graph `g'` is `g` after a visit to block `h`, which absorbed `n` blocks. -/
inductive Visited (h : Nat) : Nat → Graph → Graph → Prop where
  | stop {g : Graph} (settled : ∀ next, ¬ g.Merges h next) : Visited h 0 g g
  | step {next n : Nat} {g g₁ g' : Graph} (first : g.Absorbs h next g₁)
      (rest : Visited h n g₁ g') : Visited h (n + 1) g g'

/-- The graph `g'` is `g` after visits to the blocks that are still there when their turn comes. -/
inductive Merged : List Nat → Nat → Graph → Graph → Prop where
  | nil (g : Graph) : Merged [] 0 g g
  | gone {h n : Nat} {l : List Nat} {g g' : Graph} (dead : g.live? h = none)
      (rest : Merged l n g g') : Merged (h :: l) n g g'
  | visit {h m n : Nat} {l : List Nat} {g g₁ g' : Graph} (alive : (g.live? h).isSome)
      (first : Visited h m g g₁) (rest : Merged l n g₁ g') : Merged (h :: l) (m + n) g g'

theorem Visited.reworks {n : Nat} (visited : Visited h n g g') : g.Reworks g' := by
  induction visited with
  | stop => exact .refl _
  | step first _ ih => exact first.absorbed.reworks.trans ih

theorem Merged.reworks {n : Nat} {l : List Nat} (merged : Merged l n g g') : g.Reworks g' := by
  induction merged with
  | nil g => exact .refl g
  | gone _ _ ih => exact ih
  | visit _ first _ ih => exact first.reworks.trans ih

/-- What merging needs: the table lists body blocks and every live one of them once, and each of these
is reached from the entry. -/
structure Collapsible (g : Graph) : Prop extends Woven g where
  bodies : ∀ h ∈ g.table, g.Body h
  listed : ∀ h x, g.live? h = some x → x.kind = .body → g.table.count h = 1
  rooted : ∀ h x, g.live? h = some x → x.kind = .body → ReflTransGen g.Flow Graph.entry h

/-- What holds of the graph of a function while its chains are merged. -/
structure Mergeable (g : Graph) : Prop where
  tidy : g.Tidy
  filled : g.Filled
  passable : g.Passable

theorem Mergeable.collapsible (mergeable : g.Mergeable) : g.Collapsible where
  toWoven := mergeable.tidy.woven
  bodies h member := by
    obtain ⟨inside, bounded⟩ := mergeable.tidy.inside h member
    obtain ⟨x, core⟩ := Option.isSome_iff_exists.1 (core?_isSome_iff.2 bounded)
    exact body_iff_core.2
      ⟨x, core, (mergeable.tidy.kinds h x core).trans (BlockKind.ofHandle_eq_body.2 inside)⟩
  listed h x known body :=
    List.count_eq_one_of_mem mergeable.tidy.nodup (mergeable.tidy.mem_table known body)
  rooted h x known _ := (mergeable.passable h (by simp [known])).1

/-! ## The roll -/

namespace Collapsible

variable (collapsible : g.Collapsible)

include collapsible

theorem mem_roll (known : g.live? h = some x) (body : x.kind = .body) : h ∈ g.roll := by
  refine List.mem_filter.2 ⟨?_, by simp [known]⟩
  exact List.count_pos_iff.1 (by rw [collapsible.listed h x known body]; exact Nat.one_pos)

theorem body_of_mem_roll (member : h ∈ g.roll) : ∃ x, g.live? h = some x ∧ x.kind = .body := by
  obtain ⟨member, alive⟩ := List.mem_filter.1 member
  obtain ⟨x, known⟩ := Option.isSome_iff_exists.1 alive
  obtain ⟨y, core, body⟩ := body_iff_core.1 (collapsible.bodies h member)
  cases core.symm.trans (live?_eq_some.1 known).1
  exact ⟨x, known, body⟩

theorem roll_nodup : g.roll.Nodup := by
  refine List.nodup_iff_count_le_one.2 fun h => ?_
  by_cases member : h ∈ g.roll
  · obtain ⟨x, known, body⟩ := collapsible.body_of_mem_roll member
    rw [roll, List.count_filter (by simp [known]), collapsible.listed h x known body]
  · rw [List.count_eq_zero_of_not_mem member]
    exact Nat.zero_le 1

/-- The roll is no longer than the arena. -/
theorem roll_length : g.roll.length ≤ g.arena.size := by
  have inside : g.roll ⊆ List.range g.arena.size := fun h member => by
    obtain ⟨x, known, -⟩ := collapsible.body_of_mem_roll member
    exact List.mem_range.2 (live_lt known)
  have fits := (List.subperm_of_subset collapsible.roll_nodup inside).length_le
  rwa [List.length_range] at fits

end Collapsible

/-- An absorbed block is taken from the roll. -/
theorem Absorbs.roll_eq (woven : g.Woven) (absorbs : g.Absorbs h next g') :
    g'.roll = g.roll.filter (· != next) := by
  rw [roll, roll, absorbs.absorbed.reworks.table, List.filter_filter]
  refine List.filter_congr fun k _ => Bool.eq_iff_iff.2 ?_
  rw [absorbs.isSome_iff woven, Bool.and_eq_true, bne_iff_ne]

/-- The absorbed block was on the roll once. -/
theorem Collapsible.roll_perm (collapsible : g.Collapsible) (absorbs : g.Absorbs h next g') :
    g.roll.Perm (next :: g'.roll) := by
  obtain ⟨y, known, body⟩ := absorbs.merges.target collapsible.toWoven
  rw [absorbs.roll_eq collapsible.toWoven, ← collapsible.roll_nodup.erase_eq_filter]
  exact List.perm_cons_erase (collapsible.mem_roll known body)

theorem Collapsible.absorbs (collapsible : g.Collapsible) (absorbs : g.Absorbs h next g') :
    g'.Collapsible where
  toWoven := absorbs.keeps_woven collapsible.toWoven
  bodies k member := by
    rw [absorbs.absorbed.reworks.table] at member
    obtain ⟨x, core, body⟩ := body_iff_core.1 (collapsible.bodies k member)
    have bounded : k < g.arena.size := core?_isSome_iff.1 (by simp [core])
    rw [← absorbs.absorbed.reworks.size] at bounded
    obtain ⟨y, core'⟩ := Option.isSome_iff_exists.1 (core?_isSome_iff.2 bounded)
    obtain ⟨z, found, kind, -⟩ := absorbs.core_inv collapsible.toWoven core'
    cases core.symm.trans found
    exact body_iff_core.2 ⟨y, core', kind.trans body⟩
  listed k y found body := by
    obtain ⟨-, x, known, kind⟩ := absorbs.live_inv collapsible.toWoven found
    rw [absorbs.absorbed.reworks.table]
    exact collapsible.listed k x known (kind.symm.trans body)
  rooted k y found body := by
    obtain ⟨away, x, known, kind⟩ := absorbs.live_inv collapsible.toWoven found
    have way := absorbs.way_around collapsible.toWoven
      (collapsible.rooted k x known (kind.symm.trans body))
    rwa [if_neg away, if_neg (absorbs.entry_ne collapsible.toWoven).2] at way

/-! ## What a block can absorb -/

/-- The blocks that enter a live block are those from which there is an edge. -/
theorem Woven.predecessors_size (woven : g.Woven) (flow : g.Flow h next) {b : Block}
    (found : g.block? next = some b) :
    b.predecessors.size = 1 ↔ ∀ u, g.Flow u next → u = h := by
  obtain ⟨-, alive⟩ := woven.linked.flow h next flow
  have member : ∀ u, u ∈ b.predecessors.toList ↔ g.Flow u next := fun u => by
    show u ∈ b.predecessors ↔ g.Flow u next
    rw [← entered_of_block found]
    exact ⟨woven.linked.entered u next alive, fun flow => (woven.linked.flow u next flow).1⟩
  rw [OrderedSet.size, List.length_eq_one_iff]
  constructor
  · rintro ⟨a, eq⟩ u flow'
    -- the one member is `h`, since `h` is a member, and so is `u`
    have inside := (member u).2 flow'
    have here := (member h).2 flow
    rw [eq, List.mem_singleton] at inside here
    rw [inside, here]
  · intro alone
    refine ⟨h, List.perm_singleton.1 ?_⟩
    refine (List.perm_ext_iff_of_nodup b.predecessors.nodup (by simp)).2 fun u => ?_
    rw [member, List.mem_singleton]
    exact ⟨alone u, fun eq => eq ▸ flow⟩

theorem absorbable_next {b c : Block} (found : g.block? h = some b)
    (leads : b.successors.toList = [next]) (found' : g.block? next = some c) :
    absorbable? h g = .ok
      (if c.kind = .exit ∨ next = h ∨ c.predecessors.size ≠ 1 then none else some next) g := by
  rw [absorbable?, bind_ok (look_run found), leads]
  refine (bind_ok (look_run found')).trans ?_
  simp only [Bool.or_eq_true, decide_eq_true_eq, or_assoc]
  split <;> rfl

theorem absorbable_none {b : Block} (found : g.block? h = some b)
    (leads : ∀ next, b.successors.toList ≠ [next]) : absorbable? h g = .ok none g := by
  rw [absorbable?, bind_ok (look_run found)]
  cases eq : b.successors.toList with
  | nil => rfl
  | cons next rest =>
    cases rest with
    | nil => exact absurd eq (leads next)
    | cons => rfl

/-- Looking for a block to absorb ends well and finds what there is. -/
theorem Woven.absorbable_run (woven : g.Woven) (known : g.live? h = some x) (body : x.kind = .body) :
    ∃ o, absorbable? h g = .ok o g ∧ ∀ next, o = some next ↔ g.Merges h next := by
  obtain ⟨b, found, rfl⟩ := core?_eq_some.1 (live?_eq_some.1 known).1
  by_cases sole : ∃ next, b.successors.toList = [next]
  case neg =>
    rw [not_exists] at sole
    refine ⟨none, absorbable_none found sole, fun next => ⟨by simp, fun merges => ?_⟩⟩
    obtain ⟨y, known', -, leads⟩ := merges.leads
    cases known.symm.trans known'
    exact absurd leads (sole next)
  case pos =>
    obtain ⟨next, leads⟩ := sole
    have flow : g.Flow h next := ⟨_, known, by simp [OrderedSet.mem_iff, Block.core, leads]⟩
    obtain ⟨y, known'⟩ := Option.isSome_iff_exists.1 (woven.linked.flow h next flow).2
    obtain ⟨c, found', rfl⟩ := core?_eq_some.1 (live?_eq_some.1 known').1
    have kind : c.kind = .exit ↔ next = Graph.exit := by
      rw [← BlockKind.ofHandle_eq_exit, ← woven.kinds next _ (live?_eq_some.1 known').1]
      rfl
    -- the three tests of the code are the three conditions of `Merges`, in their order
    have can : ¬ (c.kind = .exit ∨ next = h ∨ c.predecessors.size ≠ 1) ↔ g.Merges h next := by
      rw [kind, Ne, woven.predecessors_size flow found', not_or, not_or, not_not]
      constructor
      · rintro ⟨inner, other, alone⟩
        exact ⟨⟨_, known, body, leads⟩, inner, other, alone⟩
      · exact fun merges => ⟨merges.inner, merges.other, merges.alone⟩
    refine ⟨_, absorbable_next found leads found', fun next' => ?_⟩
    constructor
    · intro eq
      split at eq
      case isTrue => cases eq
      case isFalse sole =>
        cases eq
        exact can.1 sole
    · intro merges
      obtain ⟨y, found'', -, leads'⟩ := merges.leads
      cases known.symm.trans found''
      obtain rfl : next = next' := by simpa using leads.symm.trans leads'
      rw [if_neg (can.2 merges)]

/-! ## The runs -/

theorem Collapsible.visited (collapsible : g.Collapsible) (visited : Visited h n g g') :
    g'.Collapsible := by
  induction visited with
  | stop => exact collapsible
  | step first _ ih => exact ih (collapsible.absorbs first)

theorem Collapsible.merged (collapsible : g.Collapsible) (merged : Merged l n g g') :
    g'.Collapsible := by
  induction merged with
  | nil => exact collapsible
  | gone _ _ ih => exact ih collapsible
  | visit _ first _ ih => exact ih (collapsible.visited first)

theorem Mergeable.absorbs (mergeable : g.Mergeable) (absorbs : g.Absorbs h next g') :
    g'.Mergeable where
  tidy := absorbs.keeps_tidy mergeable.tidy
  filled := absorbs.keeps_filled mergeable.tidy.woven mergeable.filled
  passable := absorbs.keeps_passable mergeable.tidy.woven mergeable.passable

theorem Mergeable.visited (mergeable : g.Mergeable) (visited : Visited h n g g') : g'.Mergeable := by
  induction visited with
  | stop => exact mergeable
  | step first _ ih => exact ih (mergeable.absorbs first)

theorem Mergeable.merged (mergeable : g.Mergeable) (merged : Merged l n g g') : g'.Mergeable := by
  induction merged with
  | nil => exact mergeable
  | gone _ _ ih => exact ih mergeable
  | visit _ first _ ih => exact ih (mergeable.visited first)

/-- A visit ends well with any fuel that suffices for the blocks on the roll. -/
theorem Collapsible.absorbAll_run (collapsible : g.Collapsible) (known : g.live? h = some x)
    (body : x.kind = .body) :
    ∃ n g', (∀ fuel, g.roll.length ≤ fuel → absorbAll h fuel g = .ok n g') ∧ Visited h n g g' := by
  -- The induction is on the roll and not on the fuel, so that the result is the same for any fuel.
  induction size : g.roll.length generalizing g x with
  | zero =>
    have := List.length_pos_of_mem (collapsible.mem_roll known body)
    omega
  | succ size' ih =>
    obtain ⟨o, look, sole⟩ := collapsible.absorbable_run known body
    cases o with
    | none =>
      refine ⟨0, g, fun fuel enough => ?_, .stop fun next merges => ?_⟩
      · obtain ⟨fuel, rfl⟩ := Nat.exists_eq_add_of_le' (Nat.le_trans (Nat.le_add_left 1 _) enough)
        rw [absorbAll, bind_ok look]
        rfl
      · cases (sole next).2 merges
    | some next =>
      have merges := (sole next).1 rfl
      obtain ⟨g₁, absorb, absorbs⟩ := merges.absorb_run collapsible.toWoven
      obtain ⟨y, known', -⟩ := merges.target collapsible.toWoven
      -- the roll gets shorter by the absorbed block
      have less := (collapsible.roll_perm absorbs).length_eq
      rw [List.length_cons, size] at less
      obtain ⟨n, g', run, visited⟩ := ih (collapsible.absorbs absorbs)
        (absorbs.live_self known known') body (by omega)
      refine ⟨n + 1, g', fun fuel enough => ?_, .step absorbs visited⟩
      obtain ⟨fuel, rfl⟩ := Nat.exists_eq_add_of_le' (Nat.le_trans (Nat.le_add_left 1 _) enough)
      rw [absorbAll, bind_ok look]
      exact (bind_ok absorb).trans (bind_ok (run fuel (by omega)))

/-- Visit one block of the table with this much fuel. -/
def mergeWithin (fuel h : Nat) : Edit Graph Nat := do
  if (← look h).id.isNone then return 0
  absorbAll h fuel

theorem mergeFrom_eq (h : Nat) (g : Graph) : mergeFrom h g = mergeWithin g.arena.size h g := by
  cases found : g.block? h with
  | none =>
    have fails : look h g = .error (.noBlock g.name h) g := by
      simp [look, Edit.inspect, find, found]
    rw [mergeFrom, mergeWithin, bind_error fails, bind_error fails]
  | some b =>
    rw [mergeFrom, mergeWithin, bind_ok (look_run found), bind_ok (look_run found)]
    split <;> rfl

/-- Visiting a block of the table ends well. -/
theorem Collapsible.mergeWithin_run (collapsible : g.Collapsible) (known : h ∈ g.table) :
    ∃ n g', (∀ fuel, g.roll.length ≤ fuel → mergeWithin fuel h g = .ok n g') ∧
      (g.live? h = none ∧ n = 0 ∧ g' = g ∨ (g.live? h).isSome ∧ Visited h n g g') := by
  obtain ⟨b, found, body⟩ := collapsible.bodies h known
  have core : g.core? h = some b.core := core?_eq_some.2 ⟨b, found, rfl⟩
  cases id : b.id with
  | none =>
    have dead : g.live? h = none := by
      rw [live?, core, Option.filter_some, if_neg]
      simp [Block.isAlive, body, Block.core, id]
    refine ⟨0, g, fun fuel _ => ?_, .inl ⟨dead, rfl, rfl⟩⟩
    rw [mergeWithin, bind_ok (look_run found), id]
    rfl
  | some i =>
    have alive : g.live? h = some b.core :=
      live?_eq_some.2 ⟨core, by simp [Block.isAlive, Block.core, id]⟩
    obtain ⟨n, g', run, visited⟩ := collapsible.absorbAll_run alive body
    refine ⟨n, g', fun fuel enough => ?_, .inr ⟨by simp [alive], visited⟩⟩
    rw [mergeWithin, bind_ok (look_run found), id]
    exact run fuel enough

/-- Visiting one block after the other ends well, however much fuel there is if it is enough. -/
theorem Collapsible.visits_run (collapsible : g.Collapsible) (known : ∀ h ∈ l, h ∈ g.table)
    (count : Nat) :
    ∃ n g', Merged l n g g' ∧ ∀ visit : Nat → Edit Graph Nat,
      (∀ h g₁, g.Reworks g₁ → ∃ fuel, g.arena.size ≤ fuel ∧ visit h g₁ = mergeWithin fuel h g₁) →
      (l.foldlM (fun merged h => return merged + (← visit h)) count : Edit Graph Nat) g =
        .ok (count + n) g' := by
  induction l generalizing g count with
  | nil => exact ⟨0, g, .nil g, fun _ _ => rfl⟩
  | cons h rest ih =>
    have known' : ∀ k ∈ rest, k ∈ g.table := fun k member => known k (List.mem_cons_of_mem h member)
    obtain ⟨m, g₁, run, cases⟩ := collapsible.mergeWithin_run (known h List.mem_cons_self)
    have step : ∀ visit : Nat → Edit Graph Nat,
        (∀ h g₁, g.Reworks g₁ → ∃ fuel, g.arena.size ≤ fuel ∧ visit h g₁ = mergeWithin fuel h g₁) →
        (return count + (← visit h) : Edit Graph Nat) g = .ok (count + m) g₁ := by
      intro visit enough
      obtain ⟨fuel, enough, eq⟩ := enough h g (.refl g)
      exact bind_ok (eq.trans (run fuel (collapsible.roll_length.trans enough)))
    obtain ⟨dead, rfl, rfl⟩ | ⟨alive, visited⟩ := cases
    · obtain ⟨n, g', merged, run'⟩ := ih collapsible known' count
      exact ⟨n, g', .gone dead merged, fun visit enough =>
        (bind_ok (step visit enough)).trans (run' visit enough)⟩
    · obtain ⟨n, g', merged, run'⟩ := ih (collapsible.visited visited)
        (fun k member => visited.reworks.table ▸ known' k member) (count + m)
      refine ⟨m + n, g', .visit alive visited merged, fun visit enough => ?_⟩
      rw [← Nat.add_assoc]
      refine (bind_ok (step visit enough)).trans (run' visit fun h g₂ reworks => ?_)
      rw [visited.reworks.size]
      exact enough h g₂ (visited.reworks.trans reworks)

/-- A block that is not there is not there later. -/
theorem Collapsible.alive_of_visited (collapsible : g.Collapsible) (visited : Visited h n g g')
    (alive : (g'.live? k).isSome) : (g.live? k).isSome := by
  induction visited with
  | stop => exact alive
  | step first _ ih =>
    exact ((first.isSome_iff collapsible.toWoven).1 (ih (collapsible.absorbs first) alive)).2

/-- Blocks that are not there need not be visited. -/
theorem Collapsible.merged_filter (collapsible : g.Collapsible) (merged : Merged l n g g')
    {p : Nat → Bool} (kept : ∀ k, (g.live? k).isSome → p k) : Merged (l.filter p) n g g' := by
  induction merged with
  | nil g => exact .nil g
  | @gone h n l g g' dead _ ih =>
    rw [List.filter_cons]
    split
    · exact .gone dead (ih collapsible kept)
    · exact ih collapsible kept
  | @visit h m n l g g₁ g' alive first _ ih =>
    rw [List.filter_cons, if_pos (kept h alive)]
    exact .visit alive first (ih (collapsible.visited first)
      fun k alive => kept k (collapsible.alive_of_visited first alive))

/-- The third pass with this much fuel for every visit. -/
def mergeChainsWithin (fuel : Nat) : Edit Graph Nat := do
  (← get).table.foldlM (fun merged h => return merged + (← mergeWithin fuel h)) 0

/-- The third pass ends well, and no visit needs more fuel than there are blocks. -/
theorem Collapsible.mergeChains_run (collapsible : g.Collapsible) :
    ∃ n g', mergeChains g = .ok n g' ∧ Merged g.roll n g g' ∧
      ∀ fuel, g.arena.size ≤ fuel → mergeChainsWithin fuel g = .ok n g' := by
  obtain ⟨n, g', merged, run⟩ := collapsible.visits_run (l := g.table) (fun _ => id) 0
  refine ⟨n, g', ?_, collapsible.merged_filter merged fun _ => id, fun fuel enough => ?_⟩
  · rw [mergeChains, bind_ok (get_run g), run mergeFrom fun h g₁ reworks =>
      ⟨g₁.arena.size, reworks.size.ge, mergeFrom_eq h g₁⟩, Nat.zero_add]
  · rw [mergeChainsWithin, bind_ok (get_run g), run (mergeWithin fuel) fun h g₁ _ =>
      ⟨fuel, enough, rfl⟩, Nat.zero_add]

/-- A visit leaves its block nothing to absorb, and gives no other block anything. -/
theorem Collapsible.settled_of_visited (collapsible : g.Collapsible) (visited : Visited h n g g')
    (settled : k ≠ h → ∀ next, ¬ g.Merges k next) : ∀ next, ¬ g'.Merges k next := by
  induction visited with
  | stop settled' =>
    by_cases same : k = h
    · exact same ▸ settled'
    · exact settled same
  | step first _ ih =>
    exact ih (collapsible.absorbs first) fun away next merges =>
      settled away next (first.merges_of_merges collapsible.toWoven away merges)

/-- After visits to all blocks there is nothing to merge. -/
theorem Collapsible.settled (collapsible : g.Collapsible) (merged : Merged l n g g')
    (settled : k ∉ l → ∀ next, ¬ g.Merges k next) : ∀ next, ¬ g'.Merges k next := by
  induction merged with
  | nil => exact settled List.not_mem_nil
  | @gone h n l g g' dead _ ih =>
    refine ih collapsible fun outside next merges => ?_
    by_cases same : k = h
    · subst same
      -- a block that was dead when it was visited has nothing to absorb
      obtain ⟨x, known, -⟩ := merges.leads
      cases dead.symm.trans known
    · exact settled (by simp [same, outside]) next merges
  | @visit h m n l g g₁ g' alive first _ ih =>
    refine ih (collapsible.visited first) fun outside =>
      collapsible.settled_of_visited first fun away => settled (by simp [away, outside])

end Graph

end Flowgraph
