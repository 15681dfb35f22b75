import Flowgraph.Proofs.Bypass
import Flowgraph.Proofs.Edits

/-!
# Eliding keeps what matters

The second pass bypasses the empty blocks one after the other.  What makes this possible holds again
after every step, and when the pass has come to its end there are no empty blocks.
-/

namespace Flowgraph

open Edit

namespace Graph

variable {g g' : Graph} {h k : Nat} {x y : Block} {hs : List Nat}

/-- A block with its handle. -/
def filed (g : Graph) (h : Nat) : Nat × Block := (h, (g.block? h).getD default)

theorem filed_of_block (found : g.block? h = some x) : g.filed h = (h, x) := by
  simp [filed, found]

theorem isSome_live? (found : g.block? h = some x) : (g.live? h).isSome = x.isAlive := by
  have core : g.core? h = some x.core := core?_eq_some.2 ⟨x, found, rfl⟩
  have alive : x.core.isAlive = x.isAlive := rfl
  cases eq : x.isAlive <;> simp [live?, core, alive, eq]

/-- The numbered blocks that are alive are those of the roll. -/
theorem alive_ok (bounded : ∀ h ∈ g.table, h < g.arena.size) :
    g.alive = .ok (g.roll.map g.filed) := by
  have found : ∀ h ∈ g.table, ∃ x, g.block? h = some x := fun h member =>
    Option.isSome_iff_exists.1 (block?_isSome_iff.2 (bounded h member))
  have all : g.table.mapM (fun h => return (h, ← g.find h)) =
      (.ok (g.table.map g.filed) : Except Fault (List (Nat × Block))) := by
    refine mapM_ok fun h member => ?_
    obtain ⟨x, found⟩ := found h member
    rw [find_eq_ok.2 found, filed_of_block found]
    rfl
  have same : (g.table.filter fun h => (g.filed h).2.isAlive) = g.roll := by
    refine List.filter_congr fun h member => ?_
    obtain ⟨x, found⟩ := found h member
    rw [isSome_live? found, filed_of_block found]
  rw [← same, alive, all]
  exact congrArg Except.ok List.filter_map

/-- The blocks that the second pass bypasses. -/
def hollow (g : Graph) : List Nat := g.roll.filter fun h => (g.live? h).any (·.lines.isEmpty)

theorem mem_hollow : h ∈ g.hollow ↔ h ∈ g.table ∧ ∃ x, g.live? h = some x ∧ x.lines = [] := by
  simp only [hollow, roll, List.mem_filter, Option.any_eq_true_iff_get, List.isEmpty_iff]
  constructor
  · rintro ⟨⟨member, -⟩, alive, empty⟩
    exact ⟨member, _, (Option.some_get alive).symm, empty⟩
  · rintro ⟨member, x, known, empty⟩
    exact ⟨⟨member, by simp [known]⟩, by simp [known], by simpa [known] using empty⟩

theorem hollow_filed (g : Graph) :
    (g.roll.map g.filed).filter (·.2.lines.isEmpty) = g.hollow.map g.filed := by
  rw [List.filter_map]
  refine congrArg _ (List.filter_congr fun h member => ?_)
  obtain ⟨x, known⟩ := Option.isSome_iff_exists.1 (List.mem_filter.1 member).2
  obtain ⟨b, found, rfl⟩ := core?_eq_some.1 (live?_eq_some.1 known).1
  rw [known, Function.comp_apply, filed_of_block found]
  rfl

/-- The second pass is a walk along the blocks that it bypasses. -/
theorem elideEmpty_ok (bounded : ∀ h ∈ g.table, h < g.arena.size)
    (walk : g.hollow.forM bypass g = .ok () g') : elideEmpty g = .ok g.hollow.length g' := by
  have walk : ((g.hollow.map g.filed).forM fun p => bypass p.1) g = .ok () g' := by
    rw [forM_map]
    exact walk
  rw [elideEmpty, bind_ok (inspect_ok (alive_ok bounded)), hollow_filed]
  refine (bind_ok walk).trans ?_
  rw [pure_run, List.length_map]

/-- The graph `g'` is `g` without the empty blocks `hs`. -/
inductive Elided : List Nat → Graph → Graph → Prop where
  | nil (g : Graph) : Elided [] g g
  | cons {h next : Nat} {hs : List Nat} {g g₁ g' : Graph} (first : g.Elides h next g₁)
      (rest : Elided hs g₁ g') : Elided (h :: hs) g g'

theorem Elided.reworks (elided : Elided hs g g') : g.Reworks g' := by
  induction elided with
  | nil g => exact .refl g
  | cons first _ ih => exact first.bypassed.reworks.trans ih

/-- What holds of a graph while its empty blocks are bypassed. -/
structure Elidable (g : Graph) : Prop where
  tidy : g.Tidy
  rises : g.Rises
  apart : g.Apart
  passable : g.Passable

namespace Elidable

variable (elidable : g.Elidable)

include elidable

theorem elides {next : Nat} (elides : g.Elides h next g') : g'.Elidable where
  tidy := elides.keeps_tidy elidable.tidy elidable.apart
  rises := elides.keeps_rises elidable.tidy elidable.rises
  apart := elides.keeps_apart elidable.tidy elidable.apart
  passable := elides.keeps_passable elidable.tidy elidable.passable

theorem elided (elided : Elided hs g g') : g'.Elidable := by
  induction elided with
  | nil => exact elidable
  | cons first _ ih => exact ih (elidable.elides first)

/-- The blocks that are left have kept their text. -/
theorem lines_elided (elided : Elided hs g g') :
    (g'.live? k).map Block.lines = if k ∈ hs then none else (g.live? k).map Block.lines := by
  induction elided with
  | nil => simp
  | @cons h next hs g g₁ g' first _ ih =>
    rw [ih (elidable.elides first)]
    by_cases same : k = h
    · subst same
      simp [first.live_self]
    · simp [first.live_other elidable.tidy same, same, Function.comp_def]

/-- Bypassing blocks that are empty ends well. -/
theorem bypasses_run (nodup : hs.Nodup) (all : ∀ h ∈ hs, h ∈ g.hollow) :
    ∃ g', hs.forM bypass g = .ok () g' ∧ Elided hs g g' := by
  induction hs generalizing g with
  | nil => exact ⟨g, rfl, .nil g⟩
  | cons h rest ih =>
    obtain ⟨fresh, nodup⟩ := List.nodup_cons.1 nodup
    obtain ⟨member, x, known, empty⟩ := mem_hollow.1 (all h List.mem_cons_self)
    have body : x.kind = .body := by
      rw [elidable.tidy.kinds h x (live?_eq_some.1 known).1]
      exact BlockKind.ofHandle_eq_body.2 (elidable.tidy.inside h member).1
    obtain ⟨next, g₁, run, elides⟩ := elidable.tidy.elides elidable.rises known body empty
    obtain ⟨g', run', elided⟩ := ih (elidable.elides elides) nodup fun k inside => by
      have away : k ≠ h := fun eq => fresh (eq ▸ inside)
      obtain ⟨member, x, known, empty⟩ := mem_hollow.1 (all k (List.mem_cons_of_mem h inside))
      refine mem_hollow.2 ⟨elides.bypassed.reworks.table ▸ member, x.bypassing h next, ?_, ?_⟩
      · rw [elides.live_other elidable.tidy away, known]
        rfl
      · rw [Block.lines_bypassing, empty]
    exact ⟨g', (forM_cons_ok run).trans run', .cons elides elided⟩

/-- The second pass ends well. -/
theorem elideEmpty_run :
    ∃ g', elideEmpty g = .ok g.hollow.length g' ∧ Elided g.hollow g g' := by
  have nodup : g.hollow.Nodup := (elidable.tidy.nodup.filter _).filter _
  obtain ⟨g', run, elided⟩ := elidable.bypasses_run nodup fun _ => id
  exact ⟨g', elideEmpty_ok (fun h member => (elidable.tidy.inside h member).2) run, elided⟩

/-- After the second pass no block is empty. -/
theorem filled (elided : Elided g.hollow g g') : g'.Filled := by
  intro h x known body empty
  have kept := elidable.lines_elided elided (k := h)
  rw [known] at kept
  split at kept
  case isTrue => cases kept
  case isFalse away =>
    obtain ⟨y, known', same⟩ := Option.map_eq_some_iff.1 kept.symm
    have kind : y.kind = .body := by
      rw [elidable.tidy.kinds h y (live?_eq_some.1 known').1, ← body]
      exact ((elidable.elided elided).tidy.kinds h x (live?_eq_some.1 known).1).symm
    exact away (mem_hollow.2 ⟨elidable.tidy.mem_table known' kind, y, known', same.trans empty⟩)

end Elidable

end Graph

end Flowgraph
