import Flowgraph.Proofs.Canonical
import Flowgraph.Proofs.Outline

/-!
# Pruned graphs show outlines

The outline of a graph looks through its empty blocks.  Bypassing one of them leaves the outline as it
is, and absorbing a block contracts it; in the end every straight line of the outline is one block.
So the blocks of a pruned graph can be read off the graph that the sweep leaves, without following
the passes in between.
-/

namespace Flowgraph

open Relation

namespace Ending

variable {α β γ : Type}

theorem rel_map_left {R : β → γ → Prop} {f : α → β} {e : Ending α} {e' : Ending γ} :
    (e.map f).Rel R e' ↔ e.Rel (fun a c => R (f a) c) e' := by
  constructor
  · intro rel
    cases e <;> cases rel <;> constructor <;> assumption
  · intro rel
    cases rel <;> constructor <;> assumption

theorem exists_rel {R : α → β → Prop} {stop : α} {e : Ending α}
    (each : ∀ a ∈ e.targets stop, ∃ b, R a b) : ∃ e', e.Rel R e' := by
  cases e with
  | goes next =>
    obtain ⟨b, related⟩ := each next (by simp [targets])
    exact ⟨_, .goes related⟩
  | returns => exact ⟨_, .returns⟩
  | branches thenArm elseArm =>
    obtain ⟨b, related⟩ := each thenArm (by simp [targets])
    obtain ⟨b', related'⟩ := each elseArm (by simp [targets])
    exact ⟨_, .branches related related'⟩
  | loops body after =>
    obtain ⟨b, related⟩ := each body (by simp [targets])
    obtain ⟨b', related'⟩ := each after (by simp [targets])
    exact ⟨_, .loops related related'⟩

theorem rel_self {R : α → α → Prop} {stop : α} {e : Ending α}
    (each : ∀ a ∈ e.targets stop, R a a) : e.Rel R e := by
  cases e <;> constructor <;> exact each _ (by simp [targets])

theorem Rel.eq {R : α → α → Prop} {e e' : Ending α} (rel : e.Rel R e')
    (same : ∀ a b, R a b → a = b) : e = e' := by
  cases rel with
  | goes r => rw [same _ _ r]
  | returns => rfl
  | branches r r' => rw [same _ _ r, same _ _ r']
  | loops r r' => rw [same _ _ r, same _ _ r']

end Ending

namespace Graph

variable {g g' : Graph} {h k next t u v w : Nat} {x y : Block} {e f : Ending Nat}

/-- The block is the entry or the exit, or it holds a fragment. -/
def Stays (g : Graph) (h : Nat) : Prop :=
  ∃ x, g.live? h = some x ∧ (x.kind = .body → x.lines ≠ [])

/-- Control that has come to `t` passes empty blocks only before it comes to `v`. -/
def Rests (g : Graph) (t v : Nat) : Prop := g.Skips t v ∧ g.Stays v

/-- Control goes from the block to other blocks that stay. -/
def Settles (g : Graph) (h : Nat) (e : Ending Nat) : Prop :=
  g.Stays h ∧ ∃ x f, g.live? h = some x ∧ x.Ends f ∧ f.Rel g.Rests e

/-- The graph with its empty blocks looked through. -/
def outline (g : Graph) : Outline where
  stays := g.Stays
  settles := g.Settles
  settled _ _ settles := settles.1
  lines := g.text

/-! ## Looking through empty blocks -/

theorem Skips.last (way : g.Skips u v) :
    u = v ∨ ∃ w x, g.live? w = some x ∧ x.kind = .body ∧ x.lines = [] ∧ v ∈ x.successors := by
  induction way with
  | refl u => exact .inl rfl
  | @step u v w x known body empty member _ ih =>
    obtain rfl | last := ih
    · exact .inr ⟨u, x, known, body, empty, member⟩
    · exact .inr last

/-- Control goes no further from a block that stays. -/
theorem Skips.of_stays (way : g.Skips u v) (stays : g.Stays u) : u = v := by
  cases way with
  | refl => rfl
  | step known body empty =>
    obtain ⟨x, known', filled⟩ := stays
    cases known.symm.trans known'
    exact absurd empty (filled body)

theorem Rests.of_stays (stays : g.Stays v) : g.Rests v v := ⟨.refl v, stays⟩

theorem stays_or_empty (known : g.live? h = some x) :
    g.Stays h ∨ x.kind = .body ∧ x.lines = [] := by
  by_cases empty : x.kind = .body ∧ x.lines = []
  · exact .inr empty
  · exact .inl ⟨x, known, fun body none => empty ⟨body, none⟩⟩

/-- Control does not leave the exit. -/
theorem Tidy.ne_exit (tidy : g.Tidy) (known : g.live? h = some x) (ends : x.Ends e) :
    h ≠ Graph.exit := by
  rintro rfl
  cases known.symm.trans tidy.exit
  cases ends with
  | goes successors => simpa using congrArg OrderedSet.toList successors
  | branches _ isThen => cases isThen
  | loops _ _ _ _ isExit => cases isExit

theorem Tidy.body_of_decides (tidy : g.Tidy) (known : g.live? h = some x) (ends : x.Ends e)
    (decides : e.decides) : x.kind = .body := by
  obtain ⟨e', ends', asked⟩ := tidy.ends_of_live known (tidy.ne_exit known ends)
  obtain rfl := ends.unique ends'
  exact (asked decides).1

theorem Tidy.stays_exit (tidy : g.Tidy) : g.Stays Graph.exit :=
  ⟨_, tidy.exit, by rintro ⟨⟩⟩

theorem Tidy.stays_entry (tidy : g.Tidy) : g.Stays Graph.entry := by
  obtain ⟨first, known⟩ := tidy.entry
  exact ⟨_, known, by rintro ⟨⟩⟩

namespace Elidable

variable (elidable : g.Elidable)

include elidable

/-- Control comes to a block that stays, because it comes to the exit at last. -/
theorem rests_total (alive : (g.live? t).isSome) : ∃ v, g.Rests t v := by
  have way := (elidable.passable t alive).2
  -- The way to the exit is followed up to the first block that stays, at the latest the exit.
  induction way using ReflTransGen.head_induction_on with
  | refl => exact ⟨exit, .of_stays elidable.tidy.stays_exit⟩
  | @head t w flow _ ih =>
    obtain ⟨x, known, member⟩ := id flow
    obtain stays | ⟨body, empty⟩ := stays_or_empty known
    · exact ⟨t, .of_stays stays⟩
    · obtain ⟨v, way, stays⟩ := ih (elidable.tidy.flow t w flow).2
      exact ⟨v, .step known body empty member way, stays⟩

theorem rests_unique (first : g.Rests t u) (second : g.Rests t v) : u = v := by
  obtain ⟨way, stays⟩ := first
  obtain ⟨way', stays'⟩ := second
  induction way with
  | refl t => exact way'.of_stays stays
  | @step t w u x known body empty member _ ih =>
    cases way' with
    | refl => exact ((Skips.step known body empty member ‹_›).of_stays stays').symm
    -- both ways take the one edge of the empty block
    | @step _ w' _ x' known' _ _ member' rest =>
      cases known.symm.trans known'
      obtain ⟨next, ends, -⟩ := elidable.tidy.goes_of_empty elidable.rises known body empty
      rw [ends.mem_successors, Ending.targets, List.mem_singleton] at member member'
      exact ih stays (member.trans member'.symm ▸ rest)

theorem settles_total (stays : g.Stays h) (other : h ≠ exit) : ∃ e, g.Settles h e := by
  obtain ⟨x, known, -⟩ := id stays
  obtain ⟨f, ends, -⟩ := elidable.tidy.ends_of_live known other
  obtain ⟨e, rel⟩ := Ending.exists_rel (R := g.Rests) (e := f)
    fun t (target : t ∈ f.targets exit) =>
    elidable.rests_total (elidable.tidy.flow h t ⟨x, known, ends.mem_successors.2 target⟩).2
  exact ⟨e, stays, x, f, known, ends, rel⟩

theorem settles_unique {e' : Ending Nat} (settles : g.Settles h e) (settles' : g.Settles h e') :
    e = e' := by
  obtain ⟨-, x, f, known, ends, rel⟩ := settles
  obtain ⟨-, x', f', known', ends', rel'⟩ := settles'
  cases known.symm.trans known'
  obtain rfl := ends.unique ends'
  exact rel.unique rel' fun _ _ _ => elidable.rests_unique

theorem feeds_iff : g.outline.Feeds u v ↔ g.Stays u ∧ ∃ t, g.Flow u t ∧ g.Rests t v := by
  have stops : g.Rests exit exit := .of_stays elidable.tidy.stays_exit
  constructor
  · rintro ⟨e, ⟨stays, x, f, known, ends, rel⟩, target⟩
    -- read backwards: every target of the outline comes from a target of the block
    have back := rel.swap (S := fun v t => g.Rests t v) fun _ _ => id
    obtain ⟨t, member, rests⟩ := back.targets stops target
    exact ⟨stays, t, ⟨x, known, ends.mem_successors.2 member⟩, rests⟩
  · rintro ⟨stays, t, flow, rests⟩
    have other : u ≠ exit := by
      rintro rfl
      exact elidable.tidy.not_flow_exit flow
    obtain ⟨e, settles⟩ := elidable.settles_total stays other
    obtain ⟨-, x, f, known, ends, rel⟩ := id settles
    obtain ⟨y, known', member⟩ := flow
    cases known.symm.trans known'
    obtain ⟨w, target, rests'⟩ := rel.targets stops (ends.mem_successors.1 member)
    obtain rfl := elidable.rests_unique rests rests'
    exact ⟨e, settles, target⟩

/-- Wherever control is, it has come from the last block that stays. -/
theorem fed_of_way (way : ReflTransGen g.Flow entry w) :
    ∃ u, ReflTransGen g.outline.Feeds entry u ∧ g.Stays u ∧
      (u = w ∨ ∃ t, g.Flow u t ∧ g.Skips t w) := by
  induction way with
  | refl => exact ⟨entry, .refl, elidable.tidy.stays_entry, .inl rfl⟩
  | @tail v w _ flow ih =>
    obtain ⟨u, fed, stays, rfl | ⟨t, flow', skips⟩⟩ := ih
    · -- The last block that stays is the one that control leaves here.
      exact ⟨u, fed, stays, .inr ⟨w, flow, .refl w⟩⟩
    · obtain ⟨x, known, member⟩ := id flow
      obtain stays' | ⟨body, empty⟩ := stays_or_empty known
      · have feeds := elidable.feeds_iff.2 ⟨stays, t, flow', skips, stays'⟩
        exact ⟨v, fed.tail feeds, stays', .inr ⟨w, flow, .refl w⟩⟩
      · exact ⟨u, fed, stays, .inr
          ⟨t, flow', skips.trans (.step known body empty member (.refl w))⟩⟩

theorem proper : g.outline.Proper where
  total h := elidable.settles_total
  final e settles := by
    obtain ⟨-, x, f, known, ends, -⟩ := settles
    exact elidable.tidy.ne_exit known ends rfl
  unique h e e' := elidable.settles_unique
  target u v feeds := by
    obtain ⟨-, t, -, rests⟩ := elidable.feeds_iff.1 feeds
    exact rests.2
  source u feeds := by
    obtain ⟨-, t, flow, skips, -⟩ := elidable.feeds_iff.1 feeds
    obtain rfl | ⟨w, x, known, -, -, member⟩ := skips.last
    · exact elidable.tidy.source u (elidable.tidy.flow u entry flow).1
    · exact elidable.tidy.source w (elidable.tidy.flow w entry ⟨x, known, member⟩).1
  rooted h stays := by
    obtain ⟨x, known, -⟩ := id stays
    obtain ⟨u, fed, stays', rfl | ⟨t, flow, skips⟩⟩ :=
      elidable.fed_of_way (elidable.passable h (by simp [known])).1
    · exact fed
    · exact fed.tail (elidable.feeds_iff.2 ⟨stays', t, flow, skips, stays⟩)

end Elidable

/-! ## Bypassing leaves the outline as it is -/

namespace Elides

variable (elidable : g.Elidable) (elides : g.Elides h next g')

include elidable elides

omit elidable in
theorem not_stays : ¬ g.Stays h := by
  rintro ⟨x, known, filled⟩
  obtain ⟨y, known', body, empty, -⟩ := elides.empty
  cases known.symm.trans known'
  exact filled body empty

theorem stays_iff : g'.Stays k ↔ g.Stays k := by
  by_cases same : k = h
  · subst same
    simp only [Stays, elides.live_self, reduceCtorEq, false_and, exists_false, false_iff]
    exact elides.not_stays
  · rw [Stays, Stays, elides.live_other elidable.tidy same]
    simp [Option.map_eq_some_iff]

theorem skips_iff (stays : g.Stays v) : g'.Skips (past h next t) v ↔ g.Skips t v := by
  constructor
  · exact fun way => (elides.skips_past t).trans (elides.skips elidable.tidy way)
  · intro way
    induction way with
    | refl v =>
      have away : v ≠ h := by
        rintro rfl
        exact elides.not_stays stays
      rw [past_of_ne away]
      exact .refl v
    | @step t w v x known body empty member _ ih =>
      have onward := ih stays
      by_cases same : t = h
      · -- The bypassed block is not passed any more; the way begins behind it.
        subst same
        obtain rfl := elides.flow_self_iff.1 ⟨x, known, member⟩
        rwa [past_self, ← past_of_ne elides.other]
      · rw [past_of_ne same]
        refine .step (x := x.bypassing h next) ?_ (by simpa using body) (by simpa using empty)
          ((Block.mem_bypassing elides.other).2 ⟨w, member, rfl⟩) onward
        rw [elides.live_other elidable.tidy same, known]
        rfl

theorem rests_iff : g'.Rests (past h next t) v ↔ g.Rests t v := by
  rw [Rests, Rests, elides.stays_iff elidable]
  exact and_congr_left fun stays => elides.skips_iff elidable stays

theorem settles_iff : g'.Settles k e ↔ g.Settles k e := by
  rw [Settles, Settles, elides.stays_iff elidable]
  refine and_congr_right fun stays => ?_
  have away : k ≠ h := fun same => elides.not_stays (same ▸ stays)
  have passed : ∀ f : Ending Nat, (f.map (past h next)).Rel g'.Rests e ↔ f.Rel g.Rests e := by
    intro f
    simp only [Ending.rel_map_left, elides.rests_iff elidable]
  have ends' : ∀ {x f}, g.live? k = some x → x.Ends f →
      (x.bypassing h next).Ends (f.map (past h next)) := fun known ends =>
    elides.ends_bypassing elidable.apart known ends (elidable.tidy.body_of_decides known ends)
  constructor
  · rintro ⟨y, f', known', ends, rel⟩
    have other := (elides.keeps_tidy elidable.tidy elidable.apart).ne_exit known' ends
    obtain ⟨-, x, known, rfl⟩ := elides.live_inv elidable.tidy known'
    obtain ⟨f, ends₀, -⟩ := elidable.tidy.ends_of_live known other
    obtain rfl := ends.unique (ends' known ends₀)
    exact ⟨x, f, known, ends₀, (passed f).1 rel⟩
  · rintro ⟨x, f, known, ends, rel⟩
    refine ⟨x.bypassing h next, f.map (past h next), ?_, ends' known ends, (passed f).2 rel⟩
    rw [elides.live_other elidable.tidy away, known]
    rfl

theorem text_eq : g'.text k = g.text k := by
  by_cases same : k = h
  · subst same
    obtain ⟨x, known, -, empty, -⟩ := elides.empty
    rw [text_of_live known, empty, text, elides.live_self]
    rfl
  · rw [text, text, elides.live_other elidable.tidy same, Option.map_map]
    refine congrArg (Option.getD · []) (Option.map_congr fun x _ => ?_)
    exact Block.lines_bypassing

theorem outline_eq : g'.outline = g.outline := by
  have stays : g'.Stays = g.Stays := funext fun k => propext (elides.stays_iff elidable)
  have settles : g'.Settles = g.Settles :=
    funext fun k => funext fun e => propext (elides.settles_iff elidable)
  have text : g'.text = g.text := funext fun k => elides.text_eq elidable
  simp only [outline, stays, settles, text]

end Elides

/-! ## Absorbing contracts the outline -/

namespace Mergeable

variable (mergeable : g.Mergeable)

include mergeable

theorem stays_iff : g.Stays h ↔ (g.live? h).isSome := by
  constructor
  · rintro ⟨x, known, -⟩
    simp [known]
  · intro alive
    obtain ⟨x, known⟩ := Option.isSome_iff_exists.1 alive
    exact ⟨x, known, mergeable.filled h x known⟩

/-- No block is looked through. -/
theorem rests_iff : g.Rests t v ↔ t = v ∧ (g.live? v).isSome := by
  rw [Rests, mergeable.stays_iff]
  refine and_congr_left fun alive => ⟨fun way => ?_, ?_⟩
  · cases way with
    | refl => rfl
    | step known body empty => exact absurd empty (mergeable.filled _ _ known body)
  · rintro rfl
    exact .refl t

theorem settles_iff : g.Settles h e ↔ ∃ x, g.live? h = some x ∧ x.Ends e := by
  constructor
  · rintro ⟨-, x, f, known, ends, rel⟩
    obtain rfl := rel.eq fun t v rests => (mergeable.rests_iff.1 rests).1
    exact ⟨x, known, ends⟩
  · rintro ⟨x, known, ends⟩
    refine ⟨mergeable.stays_iff.2 (by simp [known]), x, e, known, ends, ?_⟩
    refine Ending.rel_self fun t (target : t ∈ e.targets exit) => mergeable.rests_iff.2 ⟨rfl, ?_⟩
    exact (mergeable.tidy.flow h t ⟨x, known, ends.mem_successors.2 target⟩).2

theorem feeds_iff : g.outline.Feeds u v ↔ g.Flow u v := by
  constructor
  · rintro ⟨e, settles, target⟩
    obtain ⟨x, known, ends⟩ := mergeable.settles_iff.1 settles
    exact ⟨x, known, ends.mem_successors.2 target⟩
  · intro flow
    have other : u ≠ exit := by
      rintro rfl
      exact mergeable.tidy.not_flow_exit flow
    obtain ⟨x, known, member⟩ := flow
    obtain ⟨e, ends, -⟩ := mergeable.tidy.ends_of_live known other
    exact ⟨e, mergeable.settles_iff.2 ⟨x, known, ends⟩, ends.mem_successors.1 member⟩

theorem joined_iff : g.outline.Joined h next ↔ g.Merges h next := by
  constructor
  · intro joined
    obtain ⟨x, known, member⟩ := mergeable.feeds_iff.1 joined.feeds
    have only : ∀ v, v ∈ x.successors ↔ v = next := by
      intro v
      rw [← joined.sole v, mergeable.feeds_iff]
      simp [Flow, known]
    have body : x.kind = .body := by
      rw [mergeable.tidy.kinds h x (live?_eq_some.1 known).1, BlockKind.ofHandle_eq_body]
      have notEntry : h ≠ 0 := joined.inner
      have notExit : h ≠ 1 := by
        rintro rfl
        exact mergeable.tidy.not_flow_exit ⟨x, known, member⟩
      omega
    refine ⟨⟨x, known, body, ?_⟩, joined.notExit, joined.other, fun u flow => ?_⟩
    · rw [OrderedSet.eq_singleton only]
      rfl
    · exact joined.alone u (mergeable.feeds_iff.2 flow)
  · intro merges
    refine ⟨?_, fun v => ?_, merges.inner, merges.other, fun u feeds => ?_⟩
    · rintro rfl
      obtain ⟨x, known, body, -⟩ := merges.leads
      obtain ⟨first, known'⟩ := mergeable.tidy.entry
      cases known.symm.trans known'
      cases body
    · rw [mergeable.feeds_iff, merges.flow_iff]
    · exact merges.alone u (mergeable.feeds_iff.1 feeds)

theorem contracts (absorbs : g.Absorbs h next g') : g.outline.Contracts h next g'.outline := by
  obtain ⟨x, known, -⟩ := absorbs.merges.leads
  obtain ⟨y, known', -⟩ := absorbs.merges.target mergeable.tidy.woven
  have grown := absorbs.live_self known known'
  have after := mergeable.absorbs absorbs
  have settles : ∀ k e, g'.outline.settles k e ↔ ∃ z, g'.live? k = some z ∧ z.Ends e :=
    fun k e => after.settles_iff
  refine ⟨mergeable.joined_iff.2 absorbs.merges, fun k => ?_, fun e => ?_, fun e => ?_,
    fun k e away away' => ?_, ?_, fun k away away' => ?_⟩
  · show g'.Stays k ↔ g.Stays k ∧ k ≠ next
    rw [after.stays_iff, mergeable.stays_iff, absorbs.isSome_iff mergeable.tidy.woven, and_comm]
  · show g'.Settles h e ↔ g.Settles next e
    simp [after.settles_iff, mergeable.settles_iff, grown, known', Block.ends_merged]
  · rw [settles]
    simp [absorbs.live_next mergeable.tidy.woven]
  · show g'.Settles k e ↔ g.Settles k e
    rw [after.settles_iff, mergeable.settles_iff, absorbs.live_other away away']
  · show g'.text h = g.text h ++ g.text next
    rw [text_of_live grown, text_of_live known, text_of_live known']
    rfl
  · show g'.text k = g.text k
    rw [text, text, absorbs.live_other away away']

theorem proper : g.outline.Proper where
  total h stays other := by
    obtain ⟨x, known, -⟩ := stays
    obtain ⟨e, ends, -⟩ := mergeable.tidy.ends_of_live known other
    exact ⟨e, mergeable.settles_iff.2 ⟨x, known, ends⟩⟩
  final e settles := by
    obtain ⟨x, known, ends⟩ := mergeable.settles_iff.1 settles
    exact mergeable.tidy.ne_exit known ends rfl
  unique h e e' settles settles' := by
    obtain ⟨x, known, ends⟩ := mergeable.settles_iff.1 settles
    obtain ⟨x', known', ends'⟩ := mergeable.settles_iff.1 settles'
    cases known.symm.trans known'
    exact ends.unique ends'
  target u v feeds :=
    mergeable.stays_iff.2 (mergeable.tidy.flow u v (mergeable.feeds_iff.1 feeds)).2
  source u feeds := mergeable.tidy.source u
    (mergeable.tidy.flow u entry (mergeable.feeds_iff.1 feeds)).1
  rooted h stays := by
    have way := (mergeable.passable h (mergeable.stays_iff.1 stays)).1
    exact ReflTransGen.mono (fun u v flow => mergeable.feeds_iff.2 flow) _ _ way

end Mergeable

end Graph

/-! ## The blocks of a pruned graph -/

/-- The blocks of the graph are the straight lines of the outline. -/
structure Outline.Shown (O : Outline) (g : Graph) : Prop where
  alive : ∀ h, (g.live? h).isSome ↔ O.Head h
  blocks : ∀ h x, g.live? h = some x → h ≠ Graph.exit →
    ∃ e, x.Ends e ∧ O.Collects h x.lines e

namespace Outline

variable {O O' : Outline} {g : Graph} {h next : Nat}

/-- Contracting an outline does not change what shows it. -/
theorem Contracts.shown_iff (contracts : O.Contracts h next O') (proper : O.Proper) :
    O'.Shown g ↔ O.Shown g := by
  constructor
  · intro shown
    refine ⟨fun k => ?_, fun k x known other => ?_⟩
    · rw [shown.alive, contracts.head_iff proper]
    · obtain ⟨e, ends, collects⟩ := shown.blocks k x known other
      exact ⟨e, ends, ((contracts.collects_iff proper).1 collects).2⟩
  · intro shown
    have alive : ∀ k, (g.live? k).isSome ↔ O'.Head k := by
      intro k
      rw [shown.alive, contracts.head_iff proper]
    refine ⟨alive, fun k x known other => ?_⟩
    obtain ⟨e, ends, collects⟩ := shown.blocks k x known other
    have head := (alive k).1 (by simp [known])
    have away := ((contracts.stays k).1 head.stays).2
    exact ⟨e, ends, (contracts.collects_iff proper).2 ⟨away, collects⟩⟩

end Outline

namespace Graph

variable {g g' g₁ : Graph} {h n : Nat} {l : List Nat} {report : PruneReport} {f : SourceFunction}
  {live : List Nat}

/-- A graph without empty blocks and chains shows its own outline. -/
theorem Mergeable.shown_self (mergeable : g.Mergeable) (settled : ∀ h next, ¬ g.Merges h next) :
    g.outline.Shown g := by
  have apart : ∀ h next, ¬ g.outline.Joined h next := fun h next joined =>
    settled h next (mergeable.joined_iff.1 joined)
  refine ⟨fun h => ?_, fun h x known other => ?_⟩
  · rw [← mergeable.stays_iff]
    exact ⟨fun stays => ⟨stays, fun u => apart u h⟩, fun head => head.stays⟩
  · obtain ⟨e, ends, -⟩ := mergeable.tidy.ends_of_live known other
    refine ⟨e, ends, ?_⟩
    rw [← text_of_live known]
    exact .last (mergeable.settles_iff.2 ⟨x, known, ends⟩) (apart h)

theorem Mergeable.shown_of_visited (mergeable : g.Mergeable) (visited : Visited h n g g₁)
    (shown : g₁.outline.Shown g') : g.outline.Shown g' := by
  induction visited with
  | stop => exact shown
  | step first _ ih =>
    exact ((mergeable.contracts first).shown_iff mergeable.proper).1
      (ih (mergeable.absorbs first) shown)

theorem Mergeable.shown_of_merged (mergeable : g.Mergeable) (merged : Merged l n g g₁)
    (shown : g₁.outline.Shown g') : g.outline.Shown g' := by
  induction merged with
  | nil => exact shown
  | gone _ _ ih => exact ih mergeable shown
  | visit _ first _ ih =>
    exact mergeable.shown_of_visited first (ih (mergeable.visited first) shown)

theorem Elidable.outline_eq (elidable : g.Elidable) (elided : Elided l g g₁) :
    g₁.outline = g.outline := by
  induction elided with
  | nil => rfl
  | cons first _ ih => exact (ih (elidable.elides first)).trans (first.outline_eq elidable)

/-- A pruned graph shows the outline of what the sweep has left. -/
theorem Pruned.shown (draws : g.Draws f) (reached : g.Reached live)
    (pruned : g.Pruned live g' report) :
    ∃ g₁, Swept g (Dropped g live) g₁ ∧ g₁.Elidable ∧ g₁.outline.Shown g' ∧
      g'.table = g₁.table := by
  obtain ⟨g₁, g₂, g₃, swept, elided, merged, rfl, -⟩ := id pruned.steps
  have elidable := swept.elidable draws reached
  have mergeable := elidable.mergeable elided
  have canonical := pruned.canonical draws reached
  have shown := (mergeable.merged merged).shown_self fun h next merges =>
    canonical.settled h next ⟨merges.leads, merges.inner, merges.other, merges.alone⟩
  refine ⟨g₁, swept, elidable, ?_, (elided.reworks.trans merged.reworks).table⟩
  rw [← elidable.outline_eq elided]
  exact mergeable.shown_of_merged merged ⟨shown.alive, shown.blocks⟩

/-- The blocks of a graph that shows an outline stand in the order in which they stood before. -/
theorem roll_of_shown (shown : g.outline.Shown g') (table : g'.table = g.table) :
    g'.roll = g.roll.filter fun h => (g'.live? h).isSome := by
  rw [roll, roll, table, List.filter_filter]
  refine List.filter_congr fun h _ => ?_
  cases alive : (g'.live? h).isSome with
  | false => rfl
  | true =>
    obtain ⟨x, known, -⟩ := ((shown.alive h).1 alive).stays
    simp [known]

end Graph

end Flowgraph
