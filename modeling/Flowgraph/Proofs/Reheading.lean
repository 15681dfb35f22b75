import Flowgraph.Proofs.Counterparts
import Flowgraph.Proofs.Likeness
import Flowgraph.Proofs.Rejoining

/-!
# Pruned graphs that differ in a header

If the outlines of two graphs mirror each other up to the header of a loop, the graphs that show them
look alike, and one of their blocks at most differs: the one that ends in that header.
-/

namespace Flowgraph

open Relator Relation

/-- A block names the same targets as a finished block with its ending. -/
theorem Block.Ends.targets {x : Block} {e : Ending Nat} (ends : x.Ends e) :
    x.thenTarget = (e.block none []).thenTarget ∧ x.elseTarget = (e.block none []).elseTarget ∧
      x.loopExit = (e.block none []).loopExit := by
  cases ends with
  | goes _ noThen noElse noExit => exact ⟨noThen, noElse, noExit⟩
  | branches _ isThen isElse noExit => exact ⟨isThen, isElse, noExit⟩
  | loops _ _ noThen noElse isExit => exact ⟨noThen, noElse, isExit⟩

/-- Blocks with related endings name corresponding targets. -/
theorem Ending.Rel.parallels {R : Nat → Nat → Prop} {e e' : Ending Nat} {x x' : Block}
    (rel : e.Rel R e') (unique : BiUnique R) (stops : R Graph.exit Graph.exit) (ends : x.Ends e)
    (ends' : x'.Ends e') (kind : x.kind = x'.kind) : x.Parallels R x' := by
  have alike := rel.resembles unique stops none none []
  obtain ⟨thenTarget, elseTarget, loopExit⟩ := ends.targets
  obtain ⟨thenTarget', elseTarget', loopExit'⟩ := ends'.targets
  constructor
  · exact kind
  · rw [thenTarget, thenTarget']
    exact alike.thenTarget
  · rw [elseTarget, elseTarget']
    exact alike.elseTarget
  · rw [loopExit, loopExit']
    exact alike.loopExit

theorem Ending.Rel.mem_targets_iff {R : Nat → Nat → Prop} {e e' : Ending Nat} {v v' : Nat}
    (rel : e.Rel R e') (unique : BiUnique R) (stops : R Graph.exit Graph.exit) (same : R v v') :
    v ∈ e.targets Graph.exit ↔ v' ∈ e'.targets Graph.exit := by
  constructor
  · intro target
    obtain ⟨w, member, onward⟩ := rel.targets stops target
    rwa [← unique.right onward same]
  · intro target
    have back := rel.swap (S := fun b a => R a b) fun _ _ => id
    obtain ⟨w, member, onward⟩ := back.targets stops target
    rwa [← unique.left onward same]

namespace Graph

variable {R : Nat → Nat → Prop} {O : Outline} {header : Nat} {old new : List String}
  {g g' g₁ g₁' : Graph} {h h' : Nat} {x x' : Block}

/-- The blocks of both graphs that show the outlines end in related places and hold the same
fragments, up to the header, which is the last of the blocks that became one. -/
def Reheaded (O : Outline) (header : Nat) (old new : List String) (h : Nat) (l l' : List String)
    (e : Ending Nat) : Prop :=
  l = l' ∨ ReflTransGen O.Joined h header ∧
    ∃ before into past, l = before ++ old ∧ l' = before ++ new ∧ e = .loops into past

namespace Renders

variable (renders : Renders R O header old new g₁ g₁') (elidable' : g₁'.Elidable)
  (shown : g₁.outline.Shown g) (shown' : g₁'.outline.Shown g')

include renders elidable' shown shown'

theorem blocks (same : R h h') (known : g.live? h = some x) (known' : g'.live? h' = some x')
    (other : h ≠ Graph.exit) : ∃ e e', x.Ends e ∧ x'.Ends e' ∧ e.Rel R e' ∧
      Reheaded O header old new h x.lines x'.lines e := by
  apply renders.mirrors.blocks elidable'.proper (renders.shown shown) shown' _ _ same known known' other
  · intro h h' e same settles
    obtain eq | ⟨rfl, old, new, u, v, loops, -⟩ := renders.text h h' same
    · exact .inl eq
    · have eq := renders.mirrors.settles_unique elidable'.proper same settles loops
      exact .inr ⟨.refl, [], u, v, old, new, eq⟩
  · intro h h' next l l' e same joined related
    obtain eq | ⟨-, -, -, u, v, loops, apart⟩ := renders.text h h' same
    · rw [eq]
      obtain rfl | ⟨way, before, into, past, rfl, rfl, rfl⟩ := related
      · exact .inl rfl
      · exact .inr ⟨.head joined way, g₁'.text h' ++ before, into, past,
          (List.append_assoc ..).symm, (List.append_assoc ..).symm, rfl⟩
    · exact absurd joined (Outline.not_joined_of_loops loops apart)

/-- The graphs that show the outlines look alike. -/
theorem likeness (canonical : g.Canonical) (canonical' : g'.Canonical) (table : g.table = g₁.table)
    (table' : g'.table = g₁'.table) (name : g.name = g'.name)
    (returnType : g.returnType = g'.returnType)
    (parameters : g.parameters = g'.parameters) (phase : g.phase = .pruned)
    (phase' : g'.phase = .pruned) : Likeness R g g' where
  canonical := canonical
  canonical' := canonical'
  unique := renders.mirrors.unique
  entry := renders.mirrors.entry
  exit := renders.mirrors.exit
  roll := by
    obtain ⟨l, related, same⟩ := renders.roll
    rw [roll_of_shown shown table, roll_of_shown shown' table',
      same _ fun h alive => (((renders.shown shown).alive h).1 alive).stays]
    refine List.rel_filter (fun h h' same => ?_) related
    exact renders.mirrors.alive_iff (renders.shown shown) shown' same
  alive h h' same := renders.mirrors.alive_iff (renders.shown shown) shown' same
  parallel h h' x x' same known known' := by
    by_cases stop : h = Graph.exit
    · subst stop
      obtain rfl := renders.mirrors.unique.right same renders.mirrors.exit
      cases known.symm.trans canonical.tidy.exit
      cases known'.symm.trans canonical'.tidy.exit
      exact ⟨rfl, .none, .none, .none⟩
    · obtain ⟨e, e', ends, ends', rel, -⟩ :=
        renders.blocks elidable' shown shown' same known known' stop
      apply rel.parallels renders.mirrors.unique renders.mirrors.exit ends ends'
      rw [canonical.tidy.kinds h x (live?_eq_some.1 known).1,
        canonical'.tidy.kinds h' x' (live?_eq_some.1 known').1]
      exact BlockKind.ofHandle_eq_of_rel renders.mirrors.unique renders.mirrors.entry
        renders.mirrors.exit same
  flow_iff u u' v v' same same' := by
    by_cases stop : u = Graph.exit
    · subst stop
      obtain rfl := renders.mirrors.unique.right same renders.mirrors.exit
      exact iff_of_false canonical.tidy.not_flow_exit canonical'.tidy.not_flow_exit
    · have alive := renders.mirrors.alive_iff (renders.shown shown) shown' same
      cases known : g.live? u with
      | none =>
        have known' : g'.live? u' = none := by simpa [known] using alive
        simp [Flow, known, known']
      | some x =>
        obtain ⟨x', known'⟩ := Option.isSome_iff_exists.1 (alive.1 (by simp [known]))
        obtain ⟨e, e', ends, ends', rel, -⟩ :=
          renders.blocks elidable' shown shown' same known known' stop
        have targets := rel.mem_targets_iff renders.mirrors.unique renders.mirrors.exit same'
        simp [Flow, known, known', ends.mem_successors, ends'.mem_successors, targets]
  name := name
  returnType := returnType
  parameters := parameters
  phase := phase
  phase' := phase'

/-- One block at most holds something else in the second graph: where the first ends in the old
header, the second ends in the new one. -/
theorem lines (likeness : Likeness R g g') : ∃ top, ∀ a a', Facing R g g' a a' →
    a.2.lines = a'.2.lines ∨ a.1 = top ∧ ∃ before into past,
      a.2.lines = before ++ old ∧ a'.2.lines = before ++ new ∧ a.2.Ends (.loops into past) := by
  have each : ∀ a a', Facing R g g' a a' → a.2.lines = a'.2.lines ∨
      (O.Head a.1 ∧ ReflTransGen O.Joined a.1 header) ∧ ∃ before into past,
        a.2.lines = before ++ old ∧ a'.2.lines = before ++ new ∧ a.2.Ends (.loops into past) := by
    rintro ⟨h, x⟩ ⟨h', x'⟩ facing
    have core := facing.live.core
    by_cases stop : h = Graph.exit
    · subst stop
      obtain rfl := likeness.unique.right facing.same likeness.exit
      exact .inl (likeness.exit_even facing).2
    · obtain ⟨e, e', ends, -, -, related⟩ :=
        renders.blocks elidable' shown shown' facing.same core facing.live'.core stop
      obtain eq | ⟨way, before, into, past, eq, eq', rfl⟩ := related
      · exact .inl eq
      · have head := ((renders.shown shown).alive h).1 (by simp [core])
        exact .inr ⟨⟨head, way⟩, before, into, past, eq, eq', ends.congr rfl rfl rfl rfl⟩
  -- A block is in one straight line only, so the header comes to stand in one block only.
  by_cases found : ∃ top, O.Head top ∧ ReflTransGen O.Joined top header
  · obtain ⟨top, head, way⟩ := found
    refine ⟨top, fun a a' facing => (each a a' facing).imp_right ?_⟩
    exact fun ⟨here, rest⟩ => ⟨here.1.unique head here.2 way, rest⟩
  · refine ⟨header, fun a a' facing => (each a a' facing).imp_right ?_⟩
    exact fun ⟨here, _⟩ => absurd ⟨a.1, here⟩ found

end Renders

end Graph

end Flowgraph
