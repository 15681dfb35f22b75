import Flowgraph.Proofs.Growth

/-!
# Graphs between two calls

What holds of a graph between any two calls on its builder, in whatever order the calls are made,
and what later calls leave alone: a block that is sealed keeps what it holds.  There is one lemma
for each of the edits that calls are made of.
-/

namespace Flowgraph

namespace Graph

variable {g g' g'' : Graph} {c h k u v : Nat} {x : Block}

/-- What holds of a graph between any two calls. -/
structure Regular (g : Graph) : Prop extends Wired g where
  exit_lt : exit < g.arena.size
  stops : ∀ v, ¬ g.Edge exit v
  leads : ∀ h x, g.core? h = some x → h ≠ exit → ∃ v, v ∈ x.successors
  closes : ∀ h x, g.core? h = some x → x.sealed = true → x.successors = .singleton exit
  apart : ∀ h, ¬ g.Edge h h

/-- Every sealed block of `g` holds in `g'` what it held in `g`. -/
def Retains (g g' : Graph) : Prop :=
  ∀ h x, g.block? h = some x → x.sealed = true →
    ∃ y, g'.block? h = some y ∧ y.lines = x.lines ∧ y.sealed = true ∧ y.successors = x.successors

theorem retains_of_core (same : ∀ h x, g.core? h = some x → x.sealed = true →
    ∃ y, g'.core? h = some y ∧ y.lines = x.lines ∧ y.sealed = true ∧
      y.successors = x.successors) : g.Retains g' := by
  intro h x found full
  obtain ⟨y, core, lines, full', successors⟩ :=
    same h x.core (core?_eq_some.2 ⟨x, found, rfl⟩) full
  obtain ⟨z, found', rfl⟩ := core?_eq_some.1 core
  exact ⟨z, found', lines, full', successors⟩

theorem Retains.refl (g : Graph) : g.Retains g := fun _ x found full => ⟨x, found, rfl, full, rfl⟩

theorem Retains.trans (first : g.Retains g') (second : g'.Retains g'') : g.Retains g'' := by
  intro h x found full
  obtain ⟨y, found', lines, full', successors⟩ := first h x found full
  obtain ⟨z, found'', lines', full'', successors'⟩ := second h y found' full'
  exact ⟨z, found'', lines'.trans lines, full'', successors'.trans successors⟩

/-- Edges lead to blocks. -/
theorem Wired.edge_lt (wired : g.Wired) (edge : g.Edge u v) : v < g.arena.size := by
  obtain ⟨y, found, -⟩ := (wired.mirrored u v).1 edge
  exact block?_isSome_iff.1 (by simp [found])

namespace Regular

variable (regular : g.Regular)

include regular

/-- Text may be added to a block that is open, and targets may be set in any block. -/
theorem revise {f : Block → Block} (quiet : Block.Quiet f)
    (seals : ∀ x, (f x).sealed = x.sealed) : (g.revise h f).Regular where
  toWired := regular.toWired.revise quiet
  exit_lt := by simpa using regular.exit_lt
  stops v edge := regular.stops v ((edge_revise quiet.successors).1 edge)
  leads j x core other := by
    rw [core?_revise quiet.core] at core
    split at core
    · obtain ⟨y, found, rfl⟩ := Option.map_eq_some_iff.1 core
      rw [quiet.successors]
      exact regular.leads j y found other
    · exact regular.leads j x core other
  closes j x core full := by
    rw [core?_revise quiet.core] at core
    split at core
    · obtain ⟨y, found, rfl⟩ := Option.map_eq_some_iff.1 core
      rw [seals] at full
      rw [quiet.successors]
      exact regular.closes j y found full
    · exact regular.closes j x core full
  apart j edge := regular.apart j ((edge_revise quiet.successors).1 edge)

/-- A block may be spliced in behind any block that is open. -/
theorem spliced (known : g.core? c = some x) (body : x.kind = .body) (unsealed : x.sealed = false)
    (hk : k < g.arena.size) (target : k ≠ entry) : (g.spliced c k).Regular := by
  have inside := regular.inside known body
  have hc : c < g.arena.size := core?_isSome_iff.1 (by simp [known])
  have other : c ≠ exit := by
    rintro rfl
    exact absurd inside (by decide)
  have last := regular.exit_lt
  -- The new block and the one that it is put behind are open, and all others are as they were.
  have core : ∀ j y, (g.spliced c k).core? j = some y →
      (j = g.arena.size ∧ y.sealed = false ∧ y.successors = .singleton k) ∨
      (j = c ∧ y.sealed = false ∧
        y.successors = (x.successors.erase k).insert g.arena.size) ∨
      (j ≠ c ∧ j ≠ g.arena.size ∧ g.core? j = some y) := by
    intro j y found
    rw [core?_spliced hc] at found
    split at found
    · next new =>
      cases found
      exact .inl ⟨new, rfl, rfl⟩
    · next old =>
      split at found
      · next same =>
        subst same
        rw [known] at found
        cases found
        exact .inr (.inl ⟨rfl, unsealed, rfl⟩)
      · next apart => exact .inr (.inr ⟨apart, old, found⟩)
  constructor
  · exact regular.toWired.spliced inside hc hk target
  · rw [size_spliced]
    omega
  · intro v edge
    obtain ⟨y, found, member⟩ := edge_iff_core.1 edge
    obtain ⟨new, -⟩ | ⟨same, -⟩ | ⟨-, -, old⟩ := core exit y found
    · exact absurd new (Nat.ne_of_lt last)
    · exact other same.symm
    · exact regular.stops v (edge_iff_core.2 ⟨y, old, member⟩)
  · intro j y found away
    obtain ⟨-, -, leads⟩ | ⟨-, -, leads⟩ | ⟨-, -, old⟩ := core j y found
    · exact ⟨k, by simp [leads]⟩
    · exact ⟨g.arena.size, by simp [leads]⟩
    · exact regular.leads j y old away
  · intro j y found full
    obtain ⟨-, open_, -⟩ | ⟨-, open_, -⟩ | ⟨-, -, old⟩ := core j y found
    · cases open_.symm.trans full
    · cases open_.symm.trans full
    · exact regular.closes j y old full
  · intro j edge
    obtain ⟨y, found, member⟩ := edge_iff_core.1 edge
    obtain ⟨rfl, -, leads⟩ | ⟨rfl, -, leads⟩ | ⟨-, -, old⟩ := core j y found
    · rw [leads, OrderedSet.mem_singleton] at member
      omega
    · rw [leads, OrderedSet.mem_insert, OrderedSet.mem_erase] at member
      obtain ⟨-, member⟩ | new := member
      · exact regular.apart j (edge_iff_core.2 ⟨x, known, member⟩)
      · omega
    · exact regular.apart j (edge_iff_core.2 ⟨y, old, member⟩)

/-- A return may seal any block inside the function. -/
theorem sealing (known : g.core? c = some x) (body : x.kind = .body) :
    (g.sealing c x.successors.toList).Regular := by
  have inside := regular.inside known body
  have hc : c < g.arena.size := core?_isSome_iff.1 (by simp [known])
  have other : c ≠ exit := by
    rintro rfl
    exact absurd inside (by decide)
  -- The sealed block leads to the exit alone, and all others are as they were.
  have core : ∀ j y, (g.sealing c x.successors.toList).core? j = some y →
      (j = c ∧ y.successors = .singleton exit) ∨ (j ≠ c ∧ g.core? j = some y) := by
    intro j y found
    rw [core?_sealing] at found
    split at found
    · next same =>
      subst same
      rw [known] at found
      cases found
      refine .inl ⟨rfl, ?_⟩
      show (x.successors.toList.foldl OrderedSet.erase x.successors).insert exit = _
      rw [OrderedSet.foldl_erase_self, OrderedSet.insert_empty]
    · next apart => exact .inr ⟨apart, found⟩
  constructor
  · exact regular.toWired.sealing hc regular.exit_lt _
  · simpa using regular.exit_lt
  · intro v edge
    obtain ⟨y, found, member⟩ := edge_iff_core.1 edge
    obtain ⟨same, -⟩ | ⟨-, old⟩ := core exit y found
    · exact other same.symm
    · exact regular.stops v (edge_iff_core.2 ⟨y, old, member⟩)
  · intro j y found away
    obtain ⟨-, leads⟩ | ⟨-, old⟩ := core j y found
    · exact ⟨exit, by simp [leads]⟩
    · exact regular.leads j y old away
  · intro j y found full
    obtain ⟨-, leads⟩ | ⟨-, old⟩ := core j y found
    · exact leads
    · exact regular.closes j y old full
  · intro j edge
    obtain ⟨y, found, member⟩ := edge_iff_core.1 edge
    obtain ⟨rfl, leads⟩ | ⟨-, old⟩ := core j y found
    · rw [leads, OrderedSet.mem_singleton] at member
      exact other member
    · exact regular.apart j (edge_iff_core.2 ⟨y, old, member⟩)

/-- Any block that has no number may get one. -/
theorem numbered (known : h < g.arena.size) (anonymous : g.number? h = none) :
    (g.numbered h).Regular where
  toWired := regular.toWired.numbered known anonymous
  exit_lt := by simpa using regular.exit_lt
  stops v edge := regular.stops v (edge_numbered.1 edge)
  leads j x core other := by
    rw [core?_numbered] at core
    split at core
    · obtain ⟨y, found, rfl⟩ := Option.map_eq_some_iff.1 core
      exact regular.leads j y found other
    · exact regular.leads j x core other
  closes j x core full := by
    rw [core?_numbered] at core
    split at core
    · obtain ⟨y, found, rfl⟩ := Option.map_eq_some_iff.1 core
      exact regular.closes j y found full
    · exact regular.closes j x core full
  apart j edge := regular.apart j (edge_numbered.1 edge)

end Regular

/-! ## What sealed blocks keep -/

theorem retains_revise {f : Block → Block} (quiet : Block.Quiet f)
    (seals : ∀ x, (f x).sealed = x.sealed)
    (keeps : ∀ x, g.core? h = some x → x.sealed = true → (f x).lines = x.lines) :
    g.Retains (g.revise h f) := by
  apply retains_of_core
  intro j x core full
  rw [core?_revise quiet.core]
  split
  · next same =>
    subst same
    refine ⟨f x, by rw [core]; rfl, keeps x core full, ?_, quiet.successors x⟩
    rw [seals, full]
  · exact ⟨x, core, rfl, full, rfl⟩

theorem retains_spliced (known : g.core? c = some x) (unsealed : x.sealed = false) :
    g.Retains (g.spliced c k) := by
  have hc : c < g.arena.size := core?_isSome_iff.1 (by simp [known])
  apply retains_of_core
  intro j y core full
  have old : j < g.arena.size := core?_isSome_iff.1 (by simp [core])
  -- A sealed block is neither the new one nor the one that it is put behind.
  have other : j ≠ c := by
    rintro rfl
    cases known.symm.trans core
    cases unsealed.symm.trans full
  rw [core?_spliced hc, if_neg (Nat.ne_of_lt old), if_neg other]
  exact ⟨y, core, rfl, full, rfl⟩

theorem retains_numbered : g.Retains (g.numbered h) := by
  apply retains_of_core
  intro j x core full
  rw [core?_numbered]
  split
  · exact ⟨{ x with id := some g.table.length }, by rw [core]; rfl, rfl, full, rfl⟩
  · exact ⟨x, core, rfl, full, rfl⟩

/-- Sealing a block once more changes nothing that counts: it leads to the exit already. -/
theorem Regular.retains_sealing (regular : g.Regular) (known : g.core? c = some x) :
    g.Retains (g.sealing c x.successors.toList) := by
  apply retains_of_core
  intro j y core full
  rw [core?_sealing]
  split
  · next same =>
    subst same
    cases known.symm.trans core
    have emptied := OrderedSet.foldl_erase_self x.successors
    refine ⟨{ x with successors := .singleton exit, sealed := true }, ?_, rfl, rfl, ?_⟩
    · rw [core, Option.map_some, emptied, OrderedSet.insert_empty]
    · exact (regular.closes j x core full).symm
  · exact ⟨y, core, rfl, full, rfl⟩

end Graph

end Flowgraph
