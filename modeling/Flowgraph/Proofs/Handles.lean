import Flowgraph.Proofs.Calls

/-!
# Handles that name no block

An edit of a graph looks handles up on its way, and an unknown one stops it where it is.  Removing an
edge has changed nothing by then, since a coherent graph has no edge to an unknown block.  But a number
is written into the table before its block is looked up, and a new edge is drawn at its source before
its target is looked up: such an edit fails too late, and leaves a half of itself behind.

All other edits keep a graph coherent, and change nothing if they fail.
-/

namespace Flowgraph

open Edit

namespace Graph

variable {g g' : Graph} {f f' : Block → Block} {a b h : Nat}

/-- Every edge is kept at both of its ends, and every number was given to a block. -/
structure Coherent (g : Graph) : Prop where
  mirrored : g.Mirrored
  named : ∀ h ∈ g.table, (g.block? h).isSome

theorem coherent_ofSignature (name : String) (returnType parameters : List String) :
    (ofSignature name returnType parameters).Coherent where
  mirrored u v := by
    -- There are two blocks, and neither has a neighbour.
    obtain _ | _ | u := u <;> obtain _ | _ | v := v <;>
      simp [Edge, Entered, ofSignature, block?]
  named := by simp [ofSignature]

theorem named_of_size (named : ∀ h ∈ g.table, (g.block? h).isSome)
    (size : g.arena.size ≤ g'.arena.size) (added : ∀ h ∈ g'.table, h ∈ g.table ∨ h < g.arena.size) :
    ∀ h ∈ g'.table, (g'.block? h).isSome := by
  -- No block is ever taken out of the arena.
  intro h member
  have old : h < g.arena.size :=
    (added h member).elim (fun member => block?_isSome_iff.1 (named h member)) id
  exact block?_isSome_iff.2 (Nat.lt_of_lt_of_le old size)

/-! ## Looking up in vain -/

theorem find?_unknown_single :
    [a].find? (fun h => (g.block? h).isNone) = some h ↔ g.block? a = none ∧ a = h := by
  cases found : g.block? a <;> simp [found]

theorem find?_unknown_pair :
    [a, b].find? (fun h => (g.block? h).isNone) = some h ↔
      g.block? a = none ∧ a = h ∨ (∃ x, g.block? a = some x) ∧ g.block? b = none ∧ b = h := by
  cases source : g.block? a <;> cases target : g.block? b <;> simp [source, target]

theorem revise_eq_self (same : ∀ x, g.block? h = some x → f x = x) : g.revise h f = g := by
  refine eq_of_block? (fun k => ?_) rfl
  rw [block?_revise]
  split
  case isTrue eq =>
    subst eq
    cases found : g.block? h with
    | none => rfl
    | some x => rw [Option.map_some, same x found]
  case isFalse => rfl

theorem revise_of_unknown (unknown : g.block? h = none) : g.revise h f = g :=
  revise_eq_self fun x found => by cases unknown.symm.trans found

theorem change_of_unknown (unknown : g.block? h = none) :
    change h f g = .error (.noBlock g.name h) g := by
  simp [change, unknown]

/-- Of two changes the second is not made if its block is unknown, and none if the first block is. -/
theorem changes_of_unknown (unknown : [a, b].find? (fun h => (g.block? h).isNone) = some h) :
    (do change a f; change b f') g = .error (.noBlock g.name h) (g.revise a f) := by
  obtain ⟨source, rfl⟩ | ⟨⟨x, source⟩, target, rfl⟩ := find?_unknown_pair.1 unknown
  · rw [bind_error (change_of_unknown source), revise_of_unknown source]
  · -- The first change is made, and it makes no block.
    have still : (g.revise a f).block? b = none := by
      rw [block?_revise, target]
      split <;> rfl
    have first : change a f g = .ok () (g.revise a f) := change_ok f source
    rw [bind_ok first, change_of_unknown still]
    rfl

theorem register_of_unknown (unknown : g.block? h = none) :
    register h g = .error (.noBlock g.name h) { g with table := g.table ++ [h] } := by
  -- The handle is in the table by the time at which it is looked up.
  have unknown' : { g with table := g.table ++ [h] }.block? h = none := unknown
  have failed : (do change h fun b => { b with id := some g.table.length }
                    return g.table.length) { g with table := g.table ++ [h] } =
      .error (.noBlock g.name h) { g with table := g.table ++ [h] } :=
    bind_error (change_of_unknown unknown')
  exact failed

end Graph

/-- The edits that can be made on a graph, with any handles. -/
inductive GraphEdit where
  | allocate (kind : BlockKind)
  | register (h : Nat)
  | connect (a b : Nat)
  | disconnect (a b : Nat)
  deriving DecidableEq, Repr

namespace GraphEdit

open Flowgraph.Graph (find?_unknown_single find?_unknown_pair)

variable {e : GraphEdit} {g : Graph} {a b h : Nat}

/-- Make the edit, whatever it answers. -/
def perform : GraphEdit → Edit Graph Unit
  | allocate kind => discard (Graph.allocate kind)
  | register h => discard (Graph.register h)
  | connect a b => Graph.connect a b
  | disconnect a b => Graph.disconnect a b

/-- The graph after the edit, whether it ended well or not. -/
def after (e : GraphEdit) (g : Graph) : Graph := final e.perform g

/-- The handles that the edit looks up, in this order. -/
def handles : GraphEdit → List Nat
  | allocate _ => []
  | register h => [h]
  | connect a b | disconnect a b => [a, b]

/-- The first handle that the edit looks up in vain. -/
def unknown? (e : GraphEdit) (g : Graph) : Option Nat :=
  e.handles.find? fun h => (g.block? h).isNone

/-- The edit has changed the graph by the time at which it fails. -/
def Slips (e : GraphEdit) (g : Graph) : Prop :=
  match e with
  | allocate _ | disconnect .. => False
  | register h => g.block? h = none
  | connect a b => (g.block? a).isSome ∧ g.block? b = none

instance (e : GraphEdit) (g : Graph) : Decidable (e.Slips g) :=
  match e with
  | allocate _ | disconnect .. => inferInstanceAs (Decidable False)
  | register h => inferInstanceAs (Decidable (g.block? h = none))
  | connect a b => inferInstanceAs (Decidable ((g.block? a).isSome ∧ g.block? b = none))

/-- The edit leaves a coherent graph, and the same one if it fails. -/
structure Harmless (e : GraphEdit) (g : Graph) : Prop where
  coherent : (e.after g).Coherent
  unchanged : ∀ fault g', e.perform g = .error fault g' → g' = g

/-! ## How an edit ends -/

/-- What the edit makes of a graph that has all its handles. -/
def made (e : GraphEdit) (g : Graph) : Graph :=
  match e with
  | allocate kind => g.withBlock kind
  | register h => g.numbered h
  | connect a b => g.withEdge a b
  | disconnect a b => g.withoutEdge a b

/-- What the edit has made of a graph when it looks up its last handle. -/
def halfway (e : GraphEdit) (g : Graph) : Graph :=
  match e with
  | allocate _ => g
  | register h => { g with table := g.table ++ [h] }
  | connect a b => g.revise a (·.addSuccessor b)
  | disconnect a b => g.revise a (·.dropSuccessor b)

theorem lt_of_known (known : e.unknown? g = none) (member : h ∈ e.handles) :
    h < g.arena.size := by
  have found := List.find?_eq_none.1 known h member
  exact Graph.block?_isSome_iff.1 (by simpa [Option.isSome_iff_ne_none] using found)

theorem perform_run (known : e.unknown? g = none) : e.perform g = .ok () (e.made g) := by
  cases e with
  | allocate kind => exact discard_ok (Graph.allocate_run kind)
  | register h =>
    have block : h < g.arena.size := lt_of_known known (by simp [handles])
    exact discard_ok (Graph.register_run block)
  | connect a b =>
    have source : a < g.arena.size := lt_of_known known (by simp [handles])
    have target : b < g.arena.size := lt_of_known known (by simp [handles])
    exact Graph.connect_run source target
  | disconnect a b =>
    have source : a < g.arena.size := lt_of_known known (by simp [handles])
    have target : b < g.arena.size := lt_of_known known (by simp [handles])
    exact Graph.disconnect_run source target

theorem perform_fails (unknown : e.unknown? g = some h) :
    e.perform g = .error (.noBlock g.name h) (e.halfway g) := by
  cases e with
  | allocate kind => cases unknown
  | register k =>
    obtain ⟨missing, rfl⟩ := find?_unknown_single.1 unknown
    exact discard_error (Graph.register_of_unknown missing)
  | connect a b => exact Graph.changes_of_unknown unknown
  | disconnect a b => exact Graph.changes_of_unknown unknown

/-- An edit fails if one of its handles is unknown, and with the first that is. -/
theorem fails_iff (e : GraphEdit) (g : Graph) (fault : Fault) :
    (∃ g', e.perform g = .error fault g') ↔ ∃ h, e.unknown? g = some h ∧ fault = .noBlock g.name h := by
  cases unknown : e.unknown? g with
  | none => simp [perform_run unknown]
  | some h => simp [perform_fails unknown, eq_comm]

/-! ## What an edit keeps -/

theorem made_coherent (coherent : g.Coherent) (known : e.unknown? g = none) :
    (e.made g).Coherent := by
  have names := @Graph.named_of_size g (e.made g) coherent.named
  cases e with
  | allocate kind => exact ⟨coherent.mirrored.withBlock kind, names (by simp [made]) fun h => .inl⟩
  | register h =>
    have block : h < g.arena.size := lt_of_known known (by simp [handles])
    refine ⟨coherent.mirrored.numbered, names (by simp [made]) fun k member => ?_⟩
    obtain old | new := List.mem_append.1 member
    · exact .inl old
    · exact .inr (List.mem_singleton.1 new ▸ block)
  | connect a b =>
    have source : a < g.arena.size := lt_of_known known (by simp [handles])
    have target : b < g.arena.size := lt_of_known known (by simp [handles])
    exact ⟨coherent.mirrored.withEdge source target, names (by simp [made]) fun h => .inl⟩
  | disconnect a b => exact ⟨coherent.mirrored.withoutEdge, names (by simp [made]) fun h => .inl⟩

theorem halfway_eq (coherent : g.Coherent) (unknown : e.unknown? g = some h) (sound : ¬ e.Slips g) :
    e.halfway g = g := by
  cases e with
  | allocate kind => rfl
  | register k => exact absurd (find?_unknown_single.1 unknown).1 sound
  | connect a b =>
    obtain ⟨source, -⟩ | ⟨source, target, -⟩ := find?_unknown_pair.1 unknown
    · exact Graph.revise_of_unknown source
    · exact absurd ⟨Option.isSome_iff_exists.2 source, target⟩ sound
  | disconnect a b =>
    refine Graph.revise_eq_self fun x found => ?_
    obtain ⟨source, -⟩ | ⟨-, target, -⟩ := find?_unknown_pair.1 unknown
    · cases source.symm.trans found
    · -- An edge to an unknown block would be kept at its source only.
      have absent : b ∉ x.successors := by
        intro member
        obtain ⟨y, found', -⟩ := (coherent.mirrored a b).1 ⟨x, found, member⟩
        cases target.symm.trans found'
      simp [Block.dropSuccessor, OrderedSet.erase_of_not_mem absent]

theorem Slips.unknown (slips : e.Slips g) : ∃ h, e.unknown? g = some h := by
  cases e with
  | allocate kind => cases slips
  | register k => exact ⟨k, find?_unknown_single.2 ⟨slips, rfl⟩⟩
  | connect a b =>
    obtain ⟨source, target⟩ := slips
    exact ⟨b, find?_unknown_pair.2 (.inr ⟨Option.isSome_iff_exists.1 source, target, rfl⟩)⟩
  | disconnect a b => cases slips

/-- An edit that slips leaves an edge that is kept at its source only, or a number without a block. -/
theorem Slips.not_coherent (slips : e.Slips g) : ¬ (e.halfway g).Coherent := by
  intro coherent
  cases e with
  | allocate kind => cases slips
  | register k =>
    have named := coherent.named k (by simp [halfway])
    have missing : ((register k).halfway g).block? k = none := slips
    rw [missing] at named
    cases named
  | connect a b =>
    obtain ⟨source, target⟩ := slips
    obtain ⟨x, found⟩ := Option.isSome_iff_exists.1 source
    have edge : ((connect a b).halfway g).Edge a b := by
      refine ⟨x.addSuccessor b, ?_, by simp [Block.addSuccessor]⟩
      rw [halfway, Graph.block?_revise, if_pos rfl, found, Option.map_some]
    obtain ⟨y, found', -⟩ := (coherent.mirrored a b).1 edge
    rw [halfway, Graph.block?_revise, target] at found'
    split at found' <;> cases found'
  | disconnect a b => cases slips

/-- An edit of a coherent graph is harmless unless it slips. -/
theorem harmless_iff (coherent : g.Coherent) : e.Harmless g ↔ ¬ e.Slips g := by
  constructor
  · intro harmless slips
    -- It fails, and what it has made by then is not coherent.
    obtain ⟨h, unknown⟩ := slips.unknown
    have left := harmless.coherent
    rw [after, final_of_error (perform_fails unknown)] at left
    exact slips.not_coherent left
  · intro sound
    cases unknown : e.unknown? g with
    | none =>
      have run := perform_run unknown
      refine ⟨?_, fun fault g' failed => ?_⟩
      · rw [after, final_of_ok run]
        exact made_coherent coherent unknown
      · cases run.symm.trans failed
    | some h =>
      -- It fails before it changes anything.
      have run := perform_fails unknown
      rw [halfway_eq coherent unknown sound] at run
      refine ⟨?_, fun fault g' failed => ?_⟩
      · rwa [after, final_of_error run]
      · cases run.symm.trans failed
        rfl

/-! ## Edits one after the other -/

/-- Something holds of each edit and the graph on which it is made, when the edits are made one after
the other. -/
def Each (P : GraphEdit → Graph → Prop) : List GraphEdit → Graph → Prop
  | [], _ => True
  | e :: rest, g => P e g ∧ Each P rest (e.after g)

instance decidableEach (P : GraphEdit → Graph → Prop) [∀ e g, Decidable (P e g)] :
    ∀ edits g, Decidable (Each P edits g)
  | [], _ => inferInstanceAs (Decidable True)
  | e :: rest, g =>
    have := decidableEach P rest (e.after g)
    inferInstanceAs (Decidable (P e g ∧ Each P rest (e.after g)))

/-- What is kept of a coherent graph by edits with arbitrary handles.  An edit fails if one of its
handles is unknown, and edits are harmless, one after the other, if and only if none of them is a
number for an unknown block or an edge from a known block to an unknown one. -/
theorem edits_coherent (coherent : g.Coherent) (edits : List GraphEdit) :
    (Each Harmless edits g ↔ Each (fun e g => ¬ e.Slips g) edits g) ∧
    ∀ e g fault, (∃ g', perform e g = .error fault g') ↔
      ∃ h, e.unknown? g = some h ∧ fault = .noBlock g.name h := by
  refine ⟨?_, fails_iff⟩
  -- A harmless edit leaves a coherent graph, on which the others are made.
  induction edits generalizing g with
  | nil => exact Iff.rfl
  | cons e rest ih =>
    have step := harmless_iff (e := e) coherent
    constructor
    · rintro ⟨harmless, later⟩
      exact ⟨step.1 harmless, (ih harmless.coherent).1 later⟩
    · rintro ⟨sound, later⟩
      have harmless := step.2 sound
      exact ⟨harmless, (ih harmless.coherent).2 later⟩

/-- An entry and an exit. -/
def bare : Graph := Graph.ofSignature "f" [] []

/-- Some of these edits fail: one draws an edge from an unknown block, others remove edges from or to
one. -/
def strays : List GraphEdit :=
  [allocate .body, register 2, connect 0 2, connect 7 2, connect 2 2, disconnect 2 9, disconnect 9 2,
    disconnect 2 2, connect 2 1]

theorem edits_coherent_strays :
    bare.Coherent ∧ Each (fun e g => ¬ e.Slips g) strays bare ∧ Each Harmless strays bare := by
  have coherent : bare.Coherent := Graph.coherent_ofSignature "f" [] []
  have sound : Each (fun e g => ¬ e.Slips g) strays bare := by decide
  exact ⟨coherent, sound, (edits_coherent coherent strays).1.2 sound⟩

/-- An edge from the entry to an unknown block: the edit fails, and the entry keeps its end of the
edge.  The next block to be made is entered by an edge that it does not know of.  A number for an
unknown block stays in the table, too. -/
theorem unknown_leaves_half :
    bare.Coherent ∧
    ¬ Each Harmless [connect 0 2] bare ∧ ¬ Each Harmless [register 2] bare ∧
    (connect 0 2).perform bare = .error (.noBlock "f" 2) (bare.revise 0 (·.addSuccessor 2)) ∧
    (∃ g, (allocate .body).perform (bare.revise 0 (·.addSuccessor 2)) = .ok () g ∧
      (g.block? 2).isSome ∧ g.Edge 0 2 ∧ ¬ g.Entered 0 2) ∧
    (register 2).perform bare = .error (.noBlock "f" 2) { bare with table := [2] } := by
  have coherent : bare.Coherent := Graph.coherent_ofSignature "f" [] []
  have edge : (connect 0 2).Slips bare := by decide
  have number : (register 2).Slips bare := by decide
  refine ⟨coherent, fun each => ?_, fun each => ?_, rfl, ?_, rfl⟩
  · exact (harmless_iff coherent).1 each.1 edge
  · exact (harmless_iff coherent).1 each.1 number
  · refine ⟨_, rfl, by decide, ⟨_, rfl, by decide⟩, ?_⟩
    rintro ⟨y, found, member⟩
    cases found
    exact absurd member (by decide)

end GraphEdit

end Flowgraph
