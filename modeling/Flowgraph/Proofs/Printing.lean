import Flowgraph.Proofs.Likeness
import Flowgraph.Render.Dot
import Flowgraph.Render.Stats

/-!
# What is printed of copies

Nothing that is printed of a pruned graph tells it from a copy: blocks are named by their display
numbers, which copies share, and neighbours are sorted.
-/

namespace Flowgraph

open Relator

namespace Graph

variable {R : Nat → Nat → Prop} {g g' : Graph}

/-- Two pruned graphs that are copies and belong to functions with the same signature. -/
structure Doubles (R : Nat → Nat → Prop) (g g' : Graph) : Prop where
  canonical : g.Canonical
  canonical' : g'.Canonical
  copies : Copies R g g'
  name : g.name = g'.name
  returnType : g.returnType = g'.returnType
  parameters : g.parameters = g'.parameters
  phase : g.phase = .pruned
  phase' : g'.phase = .pruned

namespace Doubles

variable (doubles : Doubles R g g') {a a' b b' : Nat × Block}

include doubles

theorem likeness : Likeness R g g' where
  canonical := doubles.canonical
  canonical' := doubles.canonical'
  unique := doubles.copies.unique
  entry := doubles.copies.entry
  exit := doubles.copies.exit
  roll := doubles.copies.roll
  alive h h' same := by rw [doubles.copies.isSome_iff same]
  parallel h h' x x' same known known' := by
    obtain ⟨y, found, alike⟩ := doubles.copies.block same known
    cases known'.symm.trans found
    exact ⟨alike.kind, alike.thenTarget, alike.elseTarget, alike.loopExit⟩
  flow_iff u u' v v' same same' :=
    ⟨doubles.copies.flow same same', doubles.copies.swap.flow same same'⟩
  name := doubles.name
  returnType := doubles.returnType
  parameters := doubles.parameters
  phase := doubles.phase
  phase' := doubles.phase'

theorem resembles (facing : Facing R g g' a a') : a.2.Resembles R a'.2 := by
  obtain ⟨x', known, alike⟩ := doubles.copies.block facing.same facing.live.core
  cases facing.live'.core.symm.trans known
  exact ⟨alike.kind, alike.lines, alike.sealing, alike.successors, alike.thenTarget,
    alike.elseTarget, alike.loopExit⟩

/-! ## The formats -/

section Facing

variable (facing : Facing R g g' a a')

include facing

theorem nodeLine_eq (name : String) (showLines : Bool) :
    Render.nodeLine name a.2 showLines = Render.nodeLine name a'.2 showLines := by
  have alike := doubles.resembles facing
  have lines : a.2.lines = a'.2.lines := alike.lines
  have kind : a.2.kind = a'.2.kind := alike.kind
  have sealing : a.2.sealed = a'.2.sealed := alike.sealing
  have thens : a.2.thenTarget.isSome = a'.2.thenTarget.isSome := isSome_eq_of_rel alike.thenTarget
  have exits : a.2.loopExit.isSome = a'.2.loopExit.isSome := isSome_eq_of_rel alike.loopExit
  simp only [Render.nodeLine, Render.nodeAttributes, lines, kind, sealing, thens, exits]

theorem isBackEdge_eq (target : Facing R g g' b b') :
    Render.isBackEdge a.2 b.2 = Render.isBackEdge a'.2 b'.2 := by
  have kind : a.2.kind = a'.2.kind := (doubles.resembles facing).kind
  have kind' : b.2.kind = b'.2.kind := (doubles.resembles target).kind
  unfold Render.isBackEdge
  rw [← kind, ← kind']
  by_cases bodies : a.2.kind = .body ∧ b.2.kind = .body
  · obtain ⟨body, body'⟩ := bodies
    obtain ⟨i, id⟩ := Block.id_of_alive facing.live.2 body
    obtain ⟨i', id'⟩ := Block.id_of_alive facing.live'.2 (kind.symm.trans body)
    obtain ⟨j, other⟩ := Block.id_of_alive target.live.2 body'
    obtain ⟨j', other'⟩ := Block.id_of_alive target.live'.2 (kind'.symm.trans body')
    rw [body, body', id, id', other, other']
    exact decide_eq_decide.2 (doubles.likeness.id_le_iff facing target id id' other other')
  · cases eq : a.2.kind <;> cases eq' : b.2.kind <;> simp_all

theorem edgeAttributes_eq (target : Facing R g g' b b') :
    Render.edgeAttributes a.2 b.1 b.2 = Render.edgeAttributes a'.2 b'.1 b'.2 := by
  have alike := doubles.resembles facing
  have leads : ∀ {o o' : Option Nat}, Option.Rel R o o' → (o = some b.1 ↔ o' = some b'.1) :=
    fun related => eq_some_iff_of_rel doubles.copies.unique related target.same
  have thens : a.2.thenTarget = some b.1 ↔ a'.2.thenTarget = some b'.1 := leads alike.thenTarget
  have elses : a.2.elseTarget = some b.1 ↔ a'.2.elseTarget = some b'.1 := leads alike.elseTarget
  have exits : a.2.loopExit = some b.1 ↔ a'.2.loopExit = some b'.1 := leads alike.loopExit
  simp only [Render.edgeAttributes, thens, elses, exits, doubles.isBackEdge_eq facing target]

theorem edgeLines_both (name : String) :
    Both Eq (Render.edgeLines g name a.2) (Render.edgeLines g' name a'.2) := by
  have related := doubles.likeness.facing_of_forall₂ (doubles.resembles facing).successors
    fun _ => doubles.canonical.wellFormed.live_successor facing.live
  refine (Both.mapM_eq related fun h h' ⟨x, x', target⟩ => target.find.bind ?_).bind ?_
  · rintro y y' ⟨rfl, rfl⟩
    have label : g.labelOf? h y = g'.labelOf? h' y' := doubles.likeness.label_eq target
    have attributes : Render.edgeAttributes a.2 h y = Render.edgeAttributes a'.2 h' y' :=
      doubles.edgeAttributes_eq facing target
    simp only [label, attributes]
    exact .pure rfl
  · rintro lines _ rfl
    exact .pure rfl

end Facing

theorem alive_even : Both (List.Forall₂ (Even R g g')) g.alive g'.alive := by
  obtain ⟨l, l', run, run', related⟩ := doubles.likeness.alive_both
  exact ⟨l, l', run, run', related.imp fun a a' facing =>
    ⟨facing, (doubles.resembles facing).lines⟩⟩

theorem clusterLines_both (index : Nat) (showLines : Bool) :
    Both Eq (Render.clusterLines g index showLines) (Render.clusterLines g' index showLines) := by
  refine doubles.likeness.printed_facing.bind fun l l' related => ?_
  have blocks : List.Forall₂
      (fun p p' : String × Block => p.1 = p'.1 ∧ ∃ h h', Facing R g g' (h, p.2) (h', p'.2))
      (l.filterMap fun a => (g.labelOf? a.1 a.2).map (·, a.2))
      (l'.filterMap fun a => (g'.labelOf? a.1 a.2).map (·, a.2)) := by
    refine List.rel_filterMap (fun a a' facing => ?_) related
    show Option.Rel _ ((g.labelOf? a.1 a.2).map _) ((g'.labelOf? a'.1 a'.2).map _)
    rw [doubles.likeness.label_eq facing]
    cases g'.labelOf? a'.1 a'.2 with
    | none => exact .none
    | some label => exact .some ⟨rfl, a.1, a'.1, facing⟩
  refine (Both.mapM_eq blocks ?_).bind ?_
  · rintro p p' ⟨same, h, h', facing⟩
    show Both Eq (Render.edgeLines g p.1 p.2) (Render.edgeLines g' p'.1 p'.2)
    rw [same]
    exact doubles.edgeLines_both facing p'.1
  · rintro edges _ rfl
    have nodes := map_eq_of_forall₂ (f := fun p => Render.nodeLine p.1 p.2 showLines)
      (k := fun p => Render.nodeLine p.1 p.2 showLines) blocks ?_
    · rw [doubles.name, nodes]
      exact .pure rfl
    · rintro p p' ⟨same, h, h', facing⟩
      rw [same]
      exact doubles.nodeLine_eq facing p'.1 showLines

theorem stats_both : Both Eq g.stats g'.stats := by
  refine doubles.likeness.alive_both.bind fun l l' live => ?_
  refine doubles.likeness.printed_facing.bind fun t t' related => ?_
  refine (Both.mapM_eq related fun a a' facing => doubles.likeness.successors_both facing).bind ?_
  rintro outgoing _ rfl
  have blocks : List.Forall₂ (fun x x' => x.Resembles R x') (l.map (·.2)) (l'.map (·.2)) := by
    rw [List.forall₂_map_left_iff, List.forall₂_map_right_iff]
    exact live.imp fun a a' facing => doubles.resembles facing
  refine .pure ?_
  rw [blocks.length_eq, countP_eq_of_forall₂ blocks fun x x' alike => isSome_eq_of_rel alike.thenTarget,
    countP_eq_of_forall₂ blocks fun x x' alike => isSome_eq_of_rel alike.loopExit,
    countP_eq_of_forall₂ blocks fun x x' alike => alike.sealing]

theorem statsText_both : Both Eq (Render.statsText g) (Render.statsText g') := by
  refine doubles.stats_both.bind ?_
  rintro stats _ rfl
  rw [doubles.name]
  exact .pure rfl

end Doubles

/-- Nothing that is printed tells the two graphs from each other. -/
structure PrintsAlike (g g' : Graph) : Prop where
  text : Both Eq (Render.graphText g) (Render.graphText g')
  record : Both Eq g.record g'.record
  cluster : ∀ index showLines,
    Both Eq (Render.clusterLines g index showLines) (Render.clusterLines g' index showLines)
  stats : Both Eq (Render.statsText g) (Render.statsText g')

theorem Doubles.printsAlike (doubles : Doubles R g g') : g.PrintsAlike g' :=
  ⟨doubles.likeness.graphText_even doubles.alive_even, doubles.likeness.record_even doubles.alive_even,
    doubles.clusterLines_both, doubles.statsText_both⟩

end Graph

end Flowgraph
