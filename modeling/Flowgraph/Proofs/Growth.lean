import Flowgraph.Proofs.Calls
import Flowgraph.Proofs.Layout

/-!
# What growing keeps

A graph that is being grown stays `Sound`: its edges are kept at both ends, its table lists
the numbered blocks, and nothing enters the entry or leaves the exit.  Growing a part of it
`Keeps` the core of every block but those at which it grows.
-/

namespace Flowgraph

open Edit

/-- The part that the block with a given handle plays. -/
def BlockKind.ofHandle : Nat → BlockKind
  | 0 => .entry
  | 1 => .exit
  | _ => .body

theorem BlockKind.ofHandle_eq_body {h : Nat} : BlockKind.ofHandle h = .body ↔ 2 ≤ h := by
  match h with
  | 0 | 1 => simp [ofHandle]
  | h + 2 => simp [ofHandle]

theorem BlockKind.ofHandle_eq_exit {h : Nat} : BlockKind.ofHandle h = .exit ↔ h = Graph.exit := by
  match h with
  | 0 | 1 | h + 2 => simp [ofHandle, Graph.exit]

/-- A change of a block that leaves its kind, its number and its neighbours alone. -/
structure Block.Quiet (f : Block → Block) : Prop where
  core : ∀ x, (f x).core = f x.core
  kind : ∀ x, (f x).kind = x.kind
  id : ∀ x, (f x).id = x.id
  successors : ∀ x, (f x).successors = x.successors
  predecessors : ∀ x, (f x).predecessors = x.predecessors

namespace Graph

variable {g g' g'' : Graph} {c h k i : Nat} {x : Block}

/-- The number of block `h`, if it has one. -/
def number? (g : Graph) (h : Nat) : Option Nat := (g.core? h).bind (·.id)

theorem number?_revise {f : Block → Block} (quiet : Block.Quiet f) (j : Nat) :
    (g.revise h f).number? j = g.number? j := by
  simp only [number?, core?_revise quiet.core]
  split
  · cases g.core? j <;> simp [quiet.id]
  · rfl

theorem number?_spliced (hc : c < g.arena.size) (j : Nat) :
    (g.spliced c k).number? j = g.number? j := by
  simp only [number?, core?_spliced hc]
  by_cases new : j = g.arena.size
  · subst j
    simp [core?_of_size_le, Ending.block]
  · rw [if_neg new]
    split
    · cases g.core? j <;> simp [Block.addSuccessor, Block.dropSuccessor]
    · rfl

theorem number?_sealing (l : List Nat) (j : Nat) : (g.sealing c l).number? j = g.number? j := by
  simp only [number?, core?_sealing]
  split
  · cases g.core? j <;> simp
  · rfl

theorem number?_numbered (known : h < g.arena.size) (j : Nat) :
    (g.numbered h).number? j = if h = j then some g.table.length else g.number? j := by
  obtain ⟨y, core⟩ := Option.isSome_iff_exists.1 (core?_isSome_iff.2 known)
  simp only [number?, core?_numbered]
  split
  · next same =>
    subst same
    simp [core]
  · rfl

/-- What a graph holds besides its blocks and their table. -/
def heading (g : Graph) : String × List String × List String × Numbering × Phase :=
  (g.name, g.returnType, g.parameters, g.numbering, g.phase)

/-- Block `h` is neither the entry nor the exit. -/
def Body (g : Graph) (h : Nat) : Prop := ∃ x, g.block? h = some x ∧ x.kind = .body

theorem body_iff_core : g.Body h ↔ ∃ x, g.core? h = some x ∧ x.kind = .body := by
  simp only [Body, core?, exists_map_eq_some, Block.core]

/-- Every edge is kept at both ends and none enters the entry, the handle of a block tells its kind,
and the table lists the numbered blocks. -/
structure Wired (g : Graph) : Prop where
  mirrored : g.Mirrored
  kinds : ∀ h x, g.core? h = some x → x.kind = BlockKind.ofHandle h
  numbers : ∀ i h, g.table[i]? = some h ↔ g.number? h = some i
  source : ∀ u, ¬ g.Edge u Graph.entry

namespace Wired

variable (wired : g.Wired)

include wired

theorem inside (known : g.core? h = some x) (body : x.kind = .body) : 2 ≤ h := by
  rw [wired.kinds h x known] at body
  exact BlockKind.ofHandle_eq_body.1 body

theorem body (known : g.core? h = some x) (high : 2 ≤ h) : x.kind = .body :=
  (wired.kinds h x known).trans (BlockKind.ofHandle_eq_body.2 high)

theorem body_iff : g.Body h ↔ 2 ≤ h ∧ h < g.arena.size := by
  rw [body_iff_core]
  constructor
  · rintro ⟨x, known, body⟩
    exact ⟨wired.inside known body, core?_isSome_iff.1 (by simp [known])⟩
  · rintro ⟨high, lt⟩
    obtain ⟨x, known⟩ := Option.isSome_iff_exists.1 (core?_isSome_iff.2 lt)
    exact ⟨x, known, wired.body known high⟩

theorem body_mono (wired' : g'.Wired) (size : g.arena.size ≤ g'.arena.size) (body : g.Body h) :
    g'.Body h := by
  obtain ⟨high, lt⟩ := wired.body_iff.1 body
  exact wired'.body_iff.2 ⟨high, by omega⟩

theorem number_unique {j : Nat} (hi : g.table[i]? = some h) (hj : g.table[j]? = some h) :
    i = j := by
  rw [wired.numbers] at hi hj
  exact Option.some.inj (hi.symm.trans hj)

/-- A graph is wired if it differs from a wired one in nothing that the numbers and the kinds depend
on. -/
theorem transfer (mirrored : g'.Mirrored) (table : g'.table = g.table)
    (ids : ∀ h, g'.number? h = g.number? h)
    (kinds : ∀ h x, g'.core? h = some x → x.kind = BlockKind.ofHandle h)
    (source : ∀ u, ¬ g'.Edge u Graph.entry) : g'.Wired where
  mirrored := mirrored
  kinds := kinds
  numbers i h := by rw [table, ids, wired.numbers]
  source := source

theorem revise {f : Block → Block} (quiet : Block.Quiet f) : (g.revise h f).Wired := by
  have mirrored := wired.mirrored.revise (h := h) quiet.successors quiet.predecessors
  apply wired.transfer mirrored rfl (number?_revise quiet)
  · intro j x known
    rw [core?_revise quiet.core] at known
    split at known
    · obtain ⟨y, found, rfl⟩ := Option.map_eq_some_iff.1 known
      exact (quiet.kind y).trans (wired.kinds j y found)
    · exact wired.kinds j x known
  · intro u
    rw [edge_revise quiet.successors]
    exact wired.source u

theorem spliced (inside : 2 ≤ c) (hc : c < g.arena.size) (hk : k < g.arena.size)
    (target : k ≠ Graph.entry) : (g.spliced c k).Wired := by
  have new : 2 ≤ g.arena.size := by omega
  apply wired.transfer (wired.mirrored.spliced hc hk) table_spliced (number?_spliced hc)
  · intro j x known
    rw [core?_spliced hc] at known
    split at known
    · subst j
      cases known
      exact (BlockKind.ofHandle_eq_body.2 new).symm
    · split at known
      · obtain ⟨y, found, rfl⟩ := Option.map_eq_some_iff.1 known
        exact wired.kinds j y found
      · exact wired.kinds j x known
  · -- Neither of the two new edges enters the entry.
    intro u edge
    obtain ⟨x, known, target'⟩ := edge_iff_core.1 edge
    rw [core?_spliced hc] at known
    have positive : Graph.entry ≠ g.arena.size := by
      show 0 ≠ _
      omega
    split at known
    · cases known
      simp [Ending.block, Ending.successors, Ne.symm target] at target'
    · split at known
      · obtain ⟨y, found, rfl⟩ := Option.map_eq_some_iff.1 known
        simp only [Block.addSuccessor, Block.dropSuccessor, OrderedSet.mem_insert,
          OrderedSet.mem_erase, positive, or_false] at target'
        exact wired.source u (edge_iff_core.2 ⟨y, found, target'.2⟩)
      · exact wired.source u (edge_iff_core.2 ⟨x, known, target'⟩)

theorem sealing (hc : c < g.arena.size) (he : Graph.exit < g.arena.size) (l : List Nat) :
    (g.sealing c l).Wired := by
  apply wired.transfer (wired.mirrored.sealing l hc he) (table_sealing l) (number?_sealing l)
  · intro j x known
    rw [core?_sealing] at known
    split at known
    · obtain ⟨y, found, rfl⟩ := Option.map_eq_some_iff.1 known
      exact wired.kinds j y found
    · exact wired.kinds j x known
  -- the one new edge enters the exit, and edges that are taken away do no harm
  · intro u edge
    obtain ⟨x, known, target⟩ := edge_iff_core.1 edge
    rw [core?_sealing] at known
    split at known
    · obtain ⟨y, found, rfl⟩ := Option.map_eq_some_iff.1 known
      obtain member | eq := OrderedSet.mem_insert.1 target
      · exact wired.source u (edge_iff_core.2 ⟨y, found, (OrderedSet.mem_foldl_erase.1 member).1⟩)
      · exact absurd eq (by decide)
    · exact wired.source u (edge_iff_core.2 ⟨x, known, target⟩)

theorem numbered (known : h < g.arena.size) (anonymous : g.number? h = none) :
    (g.numbered h).Wired where
  mirrored := wired.mirrored.numbered
  kinds j x known := by
    rw [core?_numbered] at known
    split at known
    · obtain ⟨y, found, rfl⟩ := Option.map_eq_some_iff.1 known
      exact wired.kinds j y found
    · exact wired.kinds j x known
  numbers i j := by
    rw [table_numbered, List.getElem?_append, number?_numbered known]
    by_cases same : h = j
    · -- The block had no number before, so it stands at the end of the table only.
      subst j
      have fresh : ∀ i : Nat, g.table[i]? ≠ some h := by
        simp [wired.numbers, anonymous]
      rw [if_pos rfl]
      split
      · simp only [fresh, false_iff, Option.some.injEq]
        omega
      · rw [List.getElem?_singleton]
        split <;> simp <;> omega
    · rw [if_neg same, ← wired.numbers]
      split
      · rfl
      · rw [List.getElem?_singleton]
        have beyond : g.table[i]? = none := by simp; omega
        rw [beyond]
        split <;> simp [same]
  source u edge := wired.source u (edge_numbered.1 edge)

end Wired

/-- What holds of a graph at any time while it is grown. -/
structure Sound (g : Graph) : Prop where
  mirrored : g.Mirrored
  kinds : ∀ h x, g.core? h = some x → x.kind = BlockKind.ofHandle h
  numbers : ∀ i h, g.table[i]? = some h ↔ g.number? h = some i
  entry : g.core? entry = some { kind := .entry, successors := .singleton 2 }
  exit : g.core? exit = some { kind := .exit }
  first : g.table[0]? = some 2
  source : ∀ u, ¬ g.Edge u Graph.entry

namespace Sound

variable (sound : g.Sound)

include sound

theorem wired : g.Wired := ⟨sound.mirrored, sound.kinds, sound.numbers, sound.source⟩

theorem exit_lt : Graph.exit < g.arena.size :=
  core?_isSome_iff.1 (by simp [sound.exit])

theorem inside (known : g.core? h = some x) (body : x.kind = .body) : 2 ≤ h :=
  sound.wired.inside known body

theorem body (known : g.core? h = some x) (high : 2 ≤ h) : x.kind = .body :=
  sound.wired.body known high

theorem named (known : g.core? h = some x) (id : x.id = some i) : g.table[i]? = some h :=
  (sound.numbers i h).2 (by simp [number?, known, id])

theorem core_of_named (named : g.table[i]? = some h) : ∃ x, g.core? h = some x ∧ x.id = some i :=
  Option.bind_eq_some_iff.1 ((sound.numbers i h).1 named)

theorem lt_of_named (named : g.table[i]? = some h) : h < g.arena.size := by
  obtain ⟨x, known, -⟩ := sound.core_of_named named
  exact core?_isSome_iff.1 (by simp [known])

/-- The entry and the exit have no numbers. -/
theorem inside_of_named (named : g.table[i]? = some h) : 2 ≤ h := by
  obtain ⟨x, known, id⟩ := sound.core_of_named named
  refine Nat.le_of_not_lt fun low => ?_
  -- the entry and the exit are known, and neither of them has a number
  have outside : h = 0 ∨ h = 1 := by omega
  obtain rfl | rfl := outside
  · cases known.symm.trans sound.entry
    cases id
  · cases known.symm.trans sound.exit
    cases id

theorem number_unique {j : Nat} (hi : g.table[i]? = some h) (hj : g.table[j]? = some h) :
    i = j :=
  sound.wired.number_unique hi hj

/-- A wired graph is sound if it keeps the two ends and the first number of a sound one. -/
theorem transfer (wired : g'.Wired) (table : g.table <+: g'.table)
    (ends : ∀ h, h < 2 → g'.core? h = g.core? h) : g'.Sound where
  mirrored := wired.mirrored
  kinds := wired.kinds
  numbers := wired.numbers
  entry := by rw [ends _ (by decide), sound.entry]
  exit := by rw [ends _ (by decide), sound.exit]
  first := by
    obtain ⟨later, eq⟩ := table
    have positive := (List.getElem?_eq_some_iff.1 sound.first).1
    rw [← eq, List.getElem?_append_left positive, sound.first]
  source := wired.source

theorem revise {f : Block → Block} (inside : 2 ≤ h) (quiet : Block.Quiet f) :
    (g.revise h f).Sound := by
  apply sound.transfer (sound.wired.revise quiet) List.prefix_rfl
  intro j low
  rw [core?_revise quiet.core, if_neg (by omega)]

theorem spliced (inside : 2 ≤ c) (hc : c < g.arena.size) (hk : k < g.arena.size)
    (target : k ≠ Graph.entry) : (g.spliced c k).Sound := by
  apply sound.transfer (sound.wired.spliced inside hc hk target) (by simp)
  intro j low
  rw [core?_spliced hc, if_neg (by omega), if_neg (by omega)]

theorem returned (inside : 2 ≤ c) (hc : c < g.arena.size) : (g.returned c k).Sound := by
  apply sound.transfer (sound.wired.sealing hc sound.exit_lt [k]) (by simp)
  intro j low
  rw [core?_sealing, if_neg (by omega)]

theorem numbered (inside : 2 ≤ h) (known : h < g.arena.size) (anonymous : g.number? h = none) :
    (g.numbered h).Sound := by
  apply sound.transfer (sound.wired.numbered known anonymous) (by simp)
  intro j low
  rw [core?_numbered, if_neg (by omega)]

end Sound

end Graph

end Flowgraph
