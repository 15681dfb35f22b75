import Flowgraph.Proofs.Live
import Flowgraph.Proofs.Sweep

/-!
# What the sweep leaves

After the sweep the live blocks are those that control can get to.  They form a tidy graph, in which
no way round and no way out of a loop is made of empty blocks only.
-/

namespace Flowgraph

open Relation

namespace Graph

variable {g g' : Graph} {f : SourceFunction} {live : List Nat} {h i j k u v : Nat} {x : Block}

section Swept

variable (draws : g.Draws f) (reached : g.Reached live) (swept : Swept g (Dropped g live) g')

include draws

omit reached swept in
theorem Draws.not_dropped_of_lt (low : h < 2) : ¬ Dropped g live h := by
  rintro ⟨i, named, -⟩
  have := draws.sound.inside_of_named named
  omega

omit reached swept in
/-- The two places behind the header of a loop differ: one is inside the loop and one is behind. -/
theorem Draws.loop_apart {lines : List String} {e : Ending (Option Nat)} {body after : Nat}
    (named : g.table[i]? = some h) (has : g.Has i lines e)
    (rel : (Ending.loops body after).Rel g.Place e) :
    body ≠ after ∧ ∃ j, g.Loop i j ∧ i + 1 < j ∧ g.table[i + 1]? = some body ∧
      g.table[j]? = some after := by
  cases rel with
  | loops place place' =>
    obtain ⟨j, rfl, rfl, less⟩ :=
      (draws.fits (List.getElem?_eq_some_iff.1 named).1).apart _ _ _ has
    refine ⟨?_, j, ⟨lines, _, has⟩, less, place, place'⟩
    rintro rfl
    have := draws.sound.number_unique place place'
    omega

omit reached swept in
theorem Draws.not_dropped (named : g.table[i]? = some h) (inside : i ∈ 0 :: live) :
    ¬ Dropped g live h := by
  rintro ⟨j, named', outside⟩
  rw [draws.sound.number_unique named' named] at outside
  exact outside inside

include swept

omit reached in
theorem Swept.live_of_has {lines : List String} {e : Ending (Option Nat)} (inside : i ∈ 0 :: live)
    (named : g.table[i]? = some h) (has : g.Has i lines e) :
    ∃ f, g'.live? h = some (Ending.block f (some i) lines) ∧ f.Rel g.Place e := by
  obtain ⟨h', f, named', core, rel⟩ := has
  cases named.symm.trans named'
  refine ⟨f, live?_eq_some.2 ⟨?_, rfl⟩, rel⟩
  rw [swept.kept h (draws.not_dropped named inside), core]

omit reached in
/-- A live block was not dropped. -/
theorem Swept.of_live (known : g'.live? h = some x) :
    ¬ Dropped g live h ∧ g.core? h = some x := by
  obtain ⟨core, alive⟩ := live?_eq_some.1 known
  by_cases gone : Dropped g live h
  · have high : 2 ≤ h := Nat.le_of_not_lt fun low => draws.not_dropped_of_lt low gone
    rw [swept.dropped h gone] at core
    obtain ⟨y, found, rfl⟩ := Option.map_eq_some_iff.1 core
    have kind := draws.sound.body found high
    simp [Block.isAlive, Block.retire, kind] at alive
  · exact ⟨gone, (swept.kept h gone) ▸ core⟩

omit reached in
/-- A live block is the entry, the exit, or one that control can get to. -/
theorem Swept.live_cases (known : g'.live? h = some x) :
    (h = entry ∧ x = { kind := .entry, successors := .singleton 2 }) ∨
      (h = exit ∧ x = { kind := .exit }) ∨
      ∃ i lines e f, i ∈ 0 :: live ∧ g.table[i]? = some h ∧ g.Has i lines e ∧ e.Suits lines ∧
        x = Ending.block f (some i) lines ∧ f.Rel g.Place e := by
  obtain ⟨kept, core⟩ := swept.of_live draws known
  obtain rfl | rfl | high : h = 0 ∨ h = 1 ∨ 2 ≤ h := by omega
  · exact .inl ⟨rfl, Option.some.inj (core.symm.trans draws.sound.entry)⟩
  · exact .inr (.inl ⟨rfl, Option.some.inj (core.symm.trans draws.sound.exit)⟩)
  · obtain ⟨i, named⟩ := draws.numbered h high (core?_isSome_iff.1 (by simp [core]))
    have inside : i ∈ 0 :: live := by
      by_cases inside : i ∈ 0 :: live
      · exact inside
      · exact absurd ⟨i, named, inside⟩ kept
    obtain ⟨lines, e, has, suits⟩ := (draws.fits (List.getElem?_eq_some_iff.1 named).1).finished
    obtain ⟨h', f, named', core', rel⟩ := id has
    cases named.symm.trans named'
    exact .inr (.inr ⟨i, lines, e, f, inside, named, has, suits,
      Option.some.inj (core.symm.trans core'), rel⟩)

omit reached in
/-- The live edges are those of the blocks that were not dropped. -/
theorem Swept.flow_iff_edge : g'.Flow u v ↔ ¬ Dropped g live u ∧ g.Edge u v := by
  constructor
  · rintro ⟨x, known, member⟩
    obtain ⟨kept, core⟩ := swept.of_live draws known
    exact ⟨kept, edge_iff_core.2 ⟨x, core, member⟩⟩
  · rintro ⟨kept, edge⟩
    obtain ⟨x, core, member⟩ := edge_iff_core.1 edge
    refine ⟨x, live?_eq_some.2 ⟨(swept.kept u kept).trans core, ?_⟩, member⟩
    by_cases body : x.kind = .body
    · obtain ⟨i, named⟩ := draws.numbered u (draws.sound.inside core body)
        (core?_isSome_iff.1 (by simp [core]))
      obtain ⟨y, core', id⟩ := draws.sound.core_of_named named
      cases core.symm.trans core'
      simp [Block.isAlive, id]
    · simp [Block.isAlive, body]

omit reached in
theorem Swept.live_of_named (inside : i ∈ 0 :: live) (named : g.table[i]? = some h) :
    (g'.live? h).isSome := by
  obtain ⟨lines, e, has, -⟩ := (draws.fits (List.getElem?_eq_some_iff.1 named).1).finished
  obtain ⟨f, known, -⟩ := swept.live_of_has draws inside named has
  simp [known]

omit reached in
theorem Swept.live_entry :
    g'.live? entry = some { kind := .entry, successors := .singleton 2 } := by
  refine live?_eq_some.2 ⟨?_, rfl⟩
  rw [swept.kept entry (draws.not_dropped_of_lt (by decide)), draws.sound.entry]

omit reached in
theorem Swept.live_exit : g'.live? exit = some { kind := .exit } := by
  refine live?_eq_some.2 ⟨?_, rfl⟩
  rw [swept.kept exit (draws.not_dropped_of_lt (by decide)), draws.sound.exit]

omit reached in
theorem Swept.flow_iff (inside : i ∈ 0 :: live) (named : g.table[i]? = some h) :
    g'.Flow h v ↔ ∃ k, g.Arc i k ∧ g.Place v k := by
  rw [swept.flow_iff_edge draws, draws.edge_iff named,
    and_iff_right (draws.not_dropped named inside)]

omit reached in
theorem Swept.flow_entry : g'.Flow entry v ↔ v = 2 := by
  simp [Flow, swept.live_entry draws]

omit reached in
theorem Swept.not_flow_exit : ¬ g'.Flow exit v := by
  simp [Flow, swept.live_exit draws]

include reached

/-- Where control goes from a block that is left. -/
theorem Swept.place_live (inside : i ∈ 0 :: live) {p : Option Nat} (arc : g.Arc i p)
    (place : g.Place v p) : (g'.live? v).isSome := by
  cases p with
  | none =>
    rw [show v = exit from place, swept.live_exit draws]
    rfl
  | some j =>
    exact swept.live_of_named draws (List.mem_cons_of_mem _ (reached.closed i inside j arc)) place

theorem Swept.tidy : g'.Tidy where
  kinds k x core := by
    by_cases gone : Dropped g live k
    · rw [swept.dropped k gone] at core
      obtain ⟨y, found, rfl⟩ := Option.map_eq_some_iff.1 core
      exact draws.sound.kinds k y found
    · rw [swept.kept k gone] at core
      exact draws.sound.kinds k x core
  nodup := by
    rw [swept.reworks.table]
    -- a block stands at one place of the table only: its own number
    refine List.pairwise_iff_getElem.2 fun i j hi hj less same => ?_
    have := draws.sound.number_unique (List.getElem?_eq_getElem hi)
      (same ▸ List.getElem?_eq_getElem hj)
    omega
  inside k member := by
    rw [swept.reworks.table] at member
    obtain ⟨i, named⟩ := List.mem_iff_getElem?.1 member
    rw [swept.reworks.size]
    exact ⟨draws.sound.inside_of_named named, draws.sound.lt_of_named named⟩
  numbers k x i core id := by
    rw [swept.reworks.table]
    by_cases gone : Dropped g live k
    · rw [swept.dropped k gone] at core
      obtain ⟨y, found, rfl⟩ := Option.map_eq_some_iff.1 core
      cases id
    · rw [swept.kept k gone] at core
      exact draws.sound.named core id
  entry := ⟨2, swept.live_entry draws⟩
  exit := swept.live_exit draws
  source u entered := draws.sound.source u ((draws.sound.mirrored _ _).2
    ((swept.entered u entry).1 entered).1)
  flow u v flow := by
    obtain ⟨kept, edge⟩ := (swept.flow_iff_edge draws).1 flow
    refine ⟨(swept.entered u v).2 ⟨(draws.sound.mirrored u v).1 edge, kept⟩, ?_⟩
    obtain ⟨x, known, member⟩ := id flow
    obtain ⟨rfl, rfl⟩ | ⟨rfl, rfl⟩ | ⟨i, lines, e, f, inside, named, -⟩ :=
      swept.live_cases draws known
    · rw [(swept.flow_entry draws).1 flow]
      exact swept.live_of_named draws List.mem_cons_self draws.sound.first
    · exact absurd flow (swept.not_flow_exit draws)
    · obtain ⟨k, arc, place⟩ := (swept.flow_iff draws inside named).1 flow
      exact swept.place_live draws reached inside arc place
  entered u v alive entered := by
    obtain ⟨entered, kept⟩ := (swept.entered u v).1 entered
    exact (swept.flow_iff_edge draws).2 ⟨kept, (draws.sound.mirrored u v).2 entered⟩
  ends k x known body := by
    obtain ⟨rfl, rfl⟩ | ⟨rfl, rfl⟩ | ⟨i, lines, e, f, inside, named, has, suits, rfl, rel⟩ :=
      swept.live_cases draws known
    · cases body
    · cases body
    · refine ⟨f.resolved, Ending.block_ends fun body after eq => ?_, fun decides => ?_⟩
      · subst eq
        exact (draws.loop_apart named has rel).1
      · rw [Ending.decides_resolved, rel.decides] at decides
        have choices := suits.choices
        rw [if_pos decides] at choices
        simp [Ending.block, choices]

omit reached in
/-- A live block with text that is given by its number. -/
theorem Swept.lines_of_live {lines : List String} {e : Ending (Option Nat)} (known : g'.live? h = some x)
    (named : g.table[i]? = some h) (has : g.Has i lines e) : x.lines = lines ∧ x.id = some i := by
  obtain ⟨-, core⟩ := swept.of_live draws known
  obtain ⟨h', f, named', core', rel⟩ := has
  cases named.symm.trans named'
  cases core.symm.trans core'
  exact ⟨rfl, rfl⟩

omit swept reached in
/-- The header of a loop holds a keyword. -/
theorem Draws.header_filled (loop : g.Loop i j) {lines : List String} {e : Ending (Option Nat)}
    (has : g.Has i lines e) : lines ≠ [] := by
  obtain ⟨lines', b, has'⟩ := loop
  obtain ⟨rfl, rfl⟩ := has.unique draws.sound has'
  have named : i < g.table.length := by
    obtain ⟨h, f, named, -⟩ := has
    exact (List.getElem?_eq_some_iff.1 named).1
  obtain ⟨lines'', e', has'', suits⟩ := (draws.fits named).finished
  obtain ⟨rfl, rfl⟩ := has.unique draws.sound has''
  rintro rfl
  have := suits.choices
  simp [Ending.decides] at this

omit reached in
theorem Swept.rises : g'.Rises := by
  intro u v x y i j known empty id member known' empty' id'
  obtain ⟨rfl, rfl⟩ | ⟨rfl, rfl⟩ | ⟨i', lines, e, f, inside, named, has, -, rfl, rel⟩ :=
    swept.live_cases draws known
  · cases id
  · cases id
  · cases id
    obtain ⟨k, arc, place⟩ := (swept.flow_iff draws inside named).1 ⟨_, known, member⟩
    obtain ⟨-, core'⟩ := swept.of_live draws known'
    cases k with
    | none =>
      rw [show v = exit from place, draws.sound.exit] at core'
      cases core'
      cases id'
    | some w =>
      obtain rfl := draws.sound.number_unique place (draws.sound.named core' id')
      -- an arc that does not rise leads back to a header, and a header is never empty
      obtain less | ⟨j', loop, -⟩ := (draws.fits (List.getElem?_eq_some_iff.1 named).1).forward w arc
      · exact less
      · obtain ⟨lines', e', has', -⟩ := (draws.fits (List.getElem?_eq_some_iff.1 place).1).finished
        obtain ⟨filled, -⟩ := swept.lines_of_live draws known' place has'
        exact absurd (filled ▸ empty') (draws.header_filled loop has')

omit reached in
/-- From inside a loop, control does not get out of it through empty blocks. -/
theorem Swept.skips_inside {m : Nat} (loop : g.Loop i j) (skips : g'.Skips u v)
    (named : g.table[m]? = some u) (low : i ≤ m) (high : m < j) :
    ∃ m', g.table[m']? = some v ∧ i ≤ m' ∧ m' < j := by
  -- what leaves a loop is its header or a return, and neither of them is empty
  induction skips generalizing m with
  | refl u => exact ⟨m, named, low, high⟩
  | @step u v w x known body empty next rest ih =>
    obtain ⟨rfl, rfl⟩ | ⟨rfl, rfl⟩ | ⟨m', lines, e, f, inside, named', has, -, rfl, rel⟩ :=
      swept.live_cases draws known
    · cases body
    · cases body
    · obtain rfl := draws.sound.number_unique named named'
      obtain rfl : lines = [] := empty
      obtain ⟨k, arc, place⟩ := (swept.flow_iff draws inside named).1 ⟨_, known, next⟩
      rw [has.arc_iff draws.sound] at arc
      have header : i < g.table.length := by
        obtain ⟨_, _, h, f, named, -⟩ := loop
        exact (List.getElem?_eq_some_iff.1 named).1
      obtain ⟨w', rfl, low', high'⟩ := (draws.fits header).stays j loop m low high e has k arc
      exact ih place low' high'

/-- The block is behind the range from `i` to below `j`, or before it and not empty. -/
def Behind (g : Graph) (i j v : Nat) : Prop :=
  v = exit ∨ ∃ m, g.table[m]? = some v ∧
    (j ≤ m ∨ m < i ∧ ∃ lines e, g.Has m lines e ∧ lines ≠ [])

omit reached in
/-- From behind a range that contains its loops, control does not get back into it through empty
blocks. -/
theorem Swept.skips_behind (contained : g.Contained i j) (skips : g'.Skips u v) (behind : g.Behind i j u) :
    g.Behind i j v := by
  induction skips with
  | refl u => exact behind
  | @step u v w x known body empty next rest ih =>
    refine ih ?_
    obtain ⟨rfl, rfl⟩ | ⟨rfl, rfl⟩ | ⟨m', lines, e, f, inside, named', has, -, rfl, rel⟩ :=
      swept.live_cases draws known
    · cases body
    · cases body
    · obtain rfl : lines = [] := empty
      obtain ⟨k, arc, place⟩ := (swept.flow_iff draws inside named').1 ⟨_, known, next⟩
      -- the block is empty, so it cannot be one of those before the range
      have late : j ≤ m' := by
        obtain rfl | ⟨m, named, late | ⟨-, lines, e, has', filled⟩⟩ := behind
        · exact absurd named' (by simp [draws.sound.numbers, number?, draws.sound.exit])
        · rwa [draws.sound.number_unique named' named]
        · rw [draws.sound.number_unique named named'] at has'
          exact absurd (has'.unique draws.sound has).1 filled
      cases k with
      | none => exact .inl place
      | some w' =>
        refine .inr ⟨w', place, ?_⟩
        obtain less | ⟨j', loop', low, high⟩ :=
          (draws.fits (List.getElem?_eq_some_iff.1 named').1).forward w' arc
        · exact .inl (by omega)
        · by_cases before : w' < i
          · obtain ⟨lines, e, has', -⟩ :=
              (draws.fits (List.getElem?_eq_some_iff.1 place).1).finished
            exact .inr ⟨before, lines, e, has', draws.header_filled loop' has'⟩
          · by_cases late : j ≤ w'
            · exact .inl late
            · have := contained w' (by omega) (by omega) j' loop'
              omega

omit reached in
theorem Swept.apart : g'.Apart := by
  intro h x body after known kind ends v skips skips'
  obtain ⟨rfl, rfl⟩ | ⟨rfl, rfl⟩ | ⟨i, lines, e, f, inside, named, has, -, rfl, rel⟩ :=
    swept.live_cases draws known
  · cases kind
  · cases kind
  · have same := ends.unique (Ending.block_ends fun body after eq =>
      (draws.loop_apart named has (eq ▸ rel)).1)
    have loops : f = .loops body after := by
      cases f <;> cases same
      rfl
    subst loops
    obtain ⟨-, j, loop, less, first, behind⟩ := draws.loop_apart named has rel
    -- one way stays inside the loop, the other stays behind it, so they cannot meet
    obtain ⟨m, at_, low, high⟩ := swept.skips_inside draws loop skips first (by omega) less
    have contained : g.Contained i j := fun v low high j' =>
      (draws.fits (List.getElem?_eq_some_iff.1 named).1).nested j loop v low high j'
    obtain rfl | ⟨m', at', place⟩ :=
      swept.skips_behind draws contained skips' (.inr ⟨j, behind, .inl (Nat.le_refl j)⟩)
    · exact absurd at_ (by simp [draws.sound.numbers, number?, draws.sound.exit])
    · have := draws.sound.number_unique at_ at'
      omega

/-- Control gets to every block that is left. -/
theorem Swept.from_entry : ∀ i ∈ 0 :: live, ∀ h, g.table[i]? = some h → ReflTransGen g'.Flow entry h := by
  intro i
  induction i using Nat.strongRecOn with
  | ind i ih =>
    intro inside h named
    obtain rfl | later := List.mem_cons.1 inside
    · obtain rfl := Option.some.inj (named.symm.trans draws.sound.first)
      exact .single ((swept.flow_entry draws).2 rfl)
    · obtain ⟨u, source, less, arc⟩ := reached.entered i later
      have known := reached.below u source
      have named' : g.table[u]? = some g.table[u] := List.getElem?_eq_getElem known
      exact (ih u less source _ named').tail
        ((swept.flow_iff draws source named').2 ⟨some i, arc, named⟩)

/-- Control gets out of the function from every block that is left. -/
theorem Swept.to_exit (leads : g.Leads i) (inside : i ∈ 0 :: live) (named : g.table[i]? = some h) :
    ReflTransGen g'.Flow h exit := by
  induction leads generalizing h with
  | out arc => exact .single ((swept.flow_iff draws inside named).2 ⟨none, arc, rfl⟩)
  | @step u v arc rest ih =>
    have inside' := List.mem_cons_of_mem 0 (reached.closed u inside v arc)
    have known := reached.below v inside'
    have named' : g.table[v]? = some g.table[v] := List.getElem?_eq_getElem known
    exact (ih inside' named').head ((swept.flow_iff draws inside named).2 ⟨some v, arc, named'⟩)

theorem Swept.passable : g'.Passable := by
  intro h alive
  obtain ⟨x, known⟩ := Option.isSome_iff_exists.1 alive
  have first := draws.sound.first
  have out : ∀ i ∈ 0 :: live, ∀ h, g.table[i]? = some h → ReflTransGen g'.Flow h exit :=
    fun i inside h named =>
      swept.to_exit draws reached (draws.leads (reached.below i inside)) inside named
  have through : ReflTransGen g'.Flow entry exit :=
    (out 0 List.mem_cons_self 2 first).head ((swept.flow_entry draws).2 rfl)
  obtain ⟨rfl, -⟩ | ⟨rfl, -⟩ | ⟨i, lines, e, f, inside, named, -⟩ := swept.live_cases draws known
  · exact ⟨.refl, through⟩
  · exact ⟨through, .refl⟩
  · exact ⟨swept.from_entry draws reached i inside h named, out i inside h named⟩

end Swept

end Graph

end Flowgraph
