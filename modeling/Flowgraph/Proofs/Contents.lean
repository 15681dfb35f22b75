import Flowgraph.Proofs.Condensed
import Flowgraph.Proofs.Counterparts
import Flowgraph.Proofs.Likeness
import Flowgraph.Proofs.Placement

/-!
# What pruned blocks hold

The sweep leaves every part of a function in one block.  Bypassing takes no part away, and a block
that absorbs another one takes over its parts; so the blocks of a pruned graph hold all parts, each
of them once.  A block ends behind its last header or return as before: what it absorbs stands behind
parts that pass control on.
-/

namespace Flowgraph

open Relation

/-- The first of the parts, if there is one, stands first in the text. -/
def OpenIn (parts : List Part) (text : List String) : Prop :=
  ∀ part ∈ parts.head?, part.fragments <+: text

/-- The last of the parts is a return. -/
def endsInReturn (parts : List Part) : Bool := parts.getLast?.any Part.isReturn

/-- How control leaves a live block with these parts: behind its last header or return, if there is
one.  The arms of an `if` begin in the blocks that it goes to, which differ unless there is nothing
in either. -/
inductive Shuts (text : Nat → List String) : List Part → Ending Nat → Prop where
  | goes {passed : List Part} {v : Nat} (passes : ∀ x ∈ passed, x.Passes) :
      Shuts text passed (.goes v)
  | returns {passed : List Part} (tokens : List String) (passes : ∀ x ∈ passed, x.Passes) :
      Shuts text (passed ++ [.ret tokens]) (.goes Graph.exit)
  | branches {passed : List Part} {condition : List String} {a : Statement} {b : Option Statement}
      {v w : Nat} (passes : ∀ x ∈ passed, x.Passes) (opens : OpenIn a.parts (text v))
      (opens' : OpenIn (Statement.orElse b).parts (text w))
      (apart : v = w → (Part.branch condition a b).Blank) :
      Shuts text (passed ++ [.branch condition a b]) (.branches v w)
  | loops {passed : List Part} {header : Part} {v w : Nat} (passes : ∀ x ∈ passed, x.Passes)
      (isLoop : header.isLoop = true) (opens : OpenIn header.inside (text v)) :
      Shuts text (passed ++ [header]) (.loops v w)

namespace Shuts

variable {text text' : Nat → List String} {passed parts : List Part} {e : Ending Nat} {next : Nat}

theorem prepend (shuts : Shuts text parts e) (passes : ∀ x ∈ passed, x.Passes) :
    Shuts text (passed ++ parts) e := by
  cases shuts with
  | goes passes' => exact .goes (List.forall_mem_append.2 ⟨passes, passes'⟩)
  | returns tokens passes' =>
    rw [← List.append_assoc]
    exact .returns tokens (List.forall_mem_append.2 ⟨passes, passes'⟩)
  | branches passes' opens opens' apart =>
    rw [← List.append_assoc]
    exact .branches (List.forall_mem_append.2 ⟨passes, passes'⟩) opens opens' apart
  | loops passes' isLoop opens =>
    rw [← List.append_assoc]
    exact .loops (List.forall_mem_append.2 ⟨passes, passes'⟩) isLoop opens

/-- The text behind the targets may grow. -/
theorem grow (shuts : Shuts text parts e) (more : ∀ v ∈ e.targets Graph.exit, text v <+: text' v) :
    Shuts text' parts e := by
  cases shuts with
  | goes passes => exact .goes passes
  | returns tokens passes => exact .returns tokens passes
  | branches passes opens opens' apart =>
    refine .branches passes ?_ ?_ apart
    · exact fun part first => (opens part first).trans (more _ (by simp [Ending.targets]))
    · exact fun part first => (opens' part first).trans (more _ (by simp [Ending.targets]))
  | loops passes isLoop opens =>
    refine .loops passes isLoop ?_
    exact fun part first => (opens part first).trans (more _ (by simp [Ending.targets]))

/-- If control goes to one block in any case, and does not return, all parts pass it on. -/
theorem passes_of_sole {x : Block} (shuts : Shuts text parts e) (ends : x.Ends e)
    (sole : ∀ v ∈ e.targets Graph.exit, v = next) (inner : next ≠ Graph.exit) :
    ∀ x ∈ parts, x.Passes := by
  cases shuts with
  | goes passes => exact passes
  | returns tokens => exact absurd (sole _ (by simp [Ending.targets])).symm inner
  | @branches passed condition a b v w passes opens opens' apart =>
    -- Both arms lead to one block, so there is nothing in either.
    have first := sole v (by simp [Ending.targets])
    have second := sole w (by simp [Ending.targets])
    have blank := apart (first.trans second.symm)
    intro x member
    obtain member | member := List.mem_append.1 member
    · exact passes x member
    · obtain rfl := List.mem_singleton.1 member
      exact ⟨rfl, rfl, blank⟩
  | @loops passed header v w =>
    -- The body of a loop and the block behind it are never the same.
    have first := sole v (by simp [Ending.targets])
    have second := sole w (by simp [Ending.targets])
    cases ends with
    | loops apart => exact absurd (first.trans second.symm) apart

end Shuts

section EndsInReturn

variable {passed : List Part} {part : Part}

theorem endsInReturn_append_singleton : endsInReturn (passed ++ [part]) = part.isReturn := by
  simp [endsInReturn]

theorem endsInReturn_of_passes (passes : ∀ x ∈ passed, x.Passes) : endsInReturn passed = false := by
  rw [endsInReturn]
  cases last : passed.getLast? with
  | none => rfl
  | some x => exact (passes x (List.mem_of_getLast? last)).2.1

end EndsInReturn

namespace Graph

variable {g g₀ g₁ g' : Graph} {f : SourceFunction} {live : List Nat} {parts : List Part}
  {C : Nat → List Part} {L : List (Nat × Part)} {h i k next n r t u v w : Nat} {e : Ending Nat}
  {held : List Part} {x y : Block}

/-- The blocks of the graph `g` hold these parts, each of them once.  The flag of a return is that of
a block that was in the graph `g₀` already and has not grown since. -/
structure Stocked (g₀ g : Graph) (parts : List Part) (C : Nat → List Part) : Prop where
  all : (g.roll.flatMap C).Perm parts
  lines : ∀ h x, g.live? h = some x → x.kind = .body → x.lines = fragmentsOf (C h)
  shuts : ∀ h e, g.Settles h e → Shuts g.text (C h) e
  sealing : ∀ h x, g.live? h = some x → x.kind = .body → ∃ z, g₀.core? h = some z ∧
    z.lines <+: x.lines ∧ (x.sealed = true ↔ endsInReturn (C h) = true ∧ x.lines = z.lines)

/-- A block has the flag of a return if its last part is one. -/
theorem Closes.sealed_iff {id : Option Nat} {lines : List String} {p : Ending (Option Nat)}
    {f : Ending Nat} (closes : g.Closes held p) (rel : f.Rel g.Place p) :
    (f.block id lines).sealed = true ↔ endsInReturn held = true := by
  cases closes with
  | goes passes =>
    cases rel
    simp [Ending.block, endsInReturn_of_passes passes]
  | returns | branches =>
    cases rel
    simp [Ending.block, endsInReturn_append_singleton, Part.isReturn]
  | @loops passed header _ _ _ _ passes isLoop =>
    cases rel
    cases header with
    | whileHeader | forHeader =>
      simp [Ending.block, endsInReturn_append_singleton, Part.isReturn]
    | simple | ret | clause | branch => cases isLoop

/-! ## After the sweep -/

/-- The parts that are listed for the number of a block. -/
def holds (g : Graph) (L : List (Nat × Part)) (h : Nat) : List Part :=
  ((g.number? h).map (partsAt L)).getD []

section Swept

variable (draws : g.Draws f) (swept : Swept g (Dropped g live) g₁) (elidable : g₁.Elidable)

include draws

omit swept elidable in
theorem Draws.holds_named (named : g.table[i]? = some h) : g.holds L h = partsAt L i := by
  rw [holds, (draws.sound.numbers i h).1 named]
  rfl

include swept

omit elidable in
theorem Swept.text_of_has {lines : List String} {e : Ending (Option Nat)} (inside : i ∈ 0 :: live)
    (named : g.table[i]? = some h) (has : g.Has i lines e) : g₁.text h = lines := by
  obtain ⟨f, known, -⟩ := swept.live_of_has draws inside named has
  exact text_of_live known

omit elidable in
/-- What stands first in a block is in its text. -/
theorem Swept.prefix_of_begins {lines : List String} (inside : i ∈ 0 :: live)
    (begins : g.Begins i lines) : ∃ h, g.table[i]? = some h ∧ lines <+: g₁.text h := by
  obtain ⟨h, x, named, core, starts⟩ := begins
  obtain ⟨lines', e, has, -⟩ := (draws.fits (List.getElem?_eq_some_iff.1 named).1).finished
  refine ⟨h, named, ?_⟩
  rw [swept.text_of_has draws inside named has]
  obtain ⟨h', f, named', core', -⟩ := has
  cases named.symm.trans named'
  cases core.symm.trans core'
  exact starts

omit elidable in
theorem Swept.stays_of_text (inside : i ∈ 0 :: live) (named : g.table[i]? = some h)
    (filled : g₁.text h ≠ []) : g₁.Stays h := by
  obtain ⟨lines, e, has, -⟩ := (draws.fits (List.getElem?_eq_some_iff.1 named).1).finished
  obtain ⟨f, known, -⟩ := swept.live_of_has draws inside named has
  rw [text_of_live known] at filled
  exact ⟨_, known, fun _ => filled⟩

omit elidable in
/-- From an empty block control skips to the block behind it. -/
theorem Swept.skips_of_goes (inside : t ∈ 0 :: live) (named : g.table[t]? = some v)
    (has : g.Has t [] (.goes (some i))) (named' : g.table[i]? = some u) : g₁.Skips v u := by
  obtain ⟨f, known, rel⟩ := swept.live_of_has draws inside named has
  cases rel with
  | goes place =>
    cases place.symm.trans named'
    exact .step known rfl rfl (OrderedSet.mem_singleton.2 rfl) (.refl u)

variable (reached : g.Reached live)

include reached elidable

/-- Behind an empty block control comes to rest where it does from the next one on. -/
theorem Swept.rests_behind (inside : t ∈ 0 :: live) (named : g.table[t]? = some v)
    (has : g.Has t [] (.goes (some i))) (rests : g₁.Rests v w) :
    ∃ u, g.table[i]? = some u ∧ g₁.Rests u w := by
  have target := reached.target inside has (List.mem_singleton_self _)
  obtain ⟨u, named'⟩ : ∃ u, g.table[i]? = some u :=
    ⟨_, List.getElem?_eq_getElem (reached.below i target)⟩
  have skips := swept.skips_of_goes draws inside named has named'
  obtain ⟨q, onward, stays⟩ := elidable.rests_total (swept.live_of_named draws target named')
  obtain rfl := elidable.rests_unique rests ⟨skips.trans onward, stays⟩
  exact ⟨u, named', onward, stays⟩

/-- Where an arm that has parts begins. -/
theorem Swept.rests_in_arm (arm : g.Arm held t k r) (inside : t ∈ 0 :: live)
    (named : g.table[t]? = some v) (rests : g₁.Rests v w) (filled : held ≠ []) :
    OpenIn held (g₁.text w) ∧ ∃ i, t ≤ i ∧ i < k ∧ g.table[i]? = some w := by
  obtain ⟨blank, -⟩ | ⟨part, i, first, low, high, way, begins⟩ := arm
  · exact absurd blank filled
  · have inside' : i ∈ 0 :: live := by
      obtain rfl | has := way
      · exact inside
      · exact reached.target inside has (List.mem_singleton_self _)
    obtain ⟨u, named', starts⟩ := swept.prefix_of_begins draws inside' begins
    -- Control stays where the first part was written, and only skips empty blocks before that.
    have stays : g₁.Stays u := by
      refine swept.stays_of_text draws inside' named' fun empty => ?_
      rw [empty, List.prefix_nil] at starts
      exact part.fragments_ne_nil starts
    have skips : g₁.Skips v u := by
      obtain rfl | has := way
      · cases named.symm.trans named'
        exact .refl v
      · exact swept.skips_of_goes draws inside named has named'
    obtain rfl := elidable.rests_unique rests ⟨skips, stays⟩
    refine ⟨fun part' first' => ?_, i, low, high, named'⟩
    cases first.symm.trans first'
    exact starts

theorem Swept.openIn (arm : g.Arm held t k r) (inside : t ∈ 0 :: live)
    (named : g.table[t]? = some v) (rests : g₁.Rests v w) : OpenIn held (g₁.text w) := by
  by_cases blank : held = []
  · intro part first
    simp [blank] at first
  · exact (swept.rests_in_arm draws elidable reached arm inside named rests blank).1

omit elidable reached in
/-- From behind an arm control does not come to rest in it. -/
theorem Swept.not_rests_back (contained : g.Contained t k) (named : g.table[i]? = some v)
    (behind : k ≤ i) (rests : g₁.Rests v w) (low : t ≤ u) (high : u < k) : g.table[u]? ≠ some w := by
  intro named'
  obtain rfl | ⟨m, at_, place⟩ :=
    swept.skips_behind draws contained rests.1 (.inr ⟨i, named, .inl behind⟩)
  · have := draws.sound.inside_of_named named'
    simp [exit] at this
  · have := draws.sound.number_unique named' at_
    omega

/-- An arm with parts is not left for where the other one begins. -/
theorem Swept.arms_apart {a : Statement} {b : Option Statement} {t' : Nat} {condition : List String}
    (forks : g.Forks a b t t') (inside : t ∈ 0 :: live) (inside' : t' ∈ 0 :: live)
    (named : g.table[t]? = some u) (named' : g.table[t']? = some v) (rests : g₁.Rests u w)
    (rests' : g₁.Rests v w) : (Part.branch condition a b).Blank := by
  obtain ⟨less, r, past, arm, arm', contained, contained'⟩ := forks
  have second : (Statement.orElse b).parts = [] := by
    by_contra filled
    obtain ⟨-, i, low, high, here⟩ :=
      swept.rests_in_arm draws elidable reached arm' inside' named' rests' filled
    by_cases blank : a.parts = []
    · -- Control skips the first arm, and comes to the end of the second one.
      obtain ⟨-, has⟩ | ⟨part, j, first, -⟩ := arm
      · obtain ⟨q, known, onward⟩ :=
          swept.rests_behind draws elidable reached inside named has rests
        exact swept.not_rests_back draws contained' known (Nat.le_refl r) onward low high here
      · simp [blank] at first
    · -- Both arms have parts, and the ranges of the arms are apart.
      obtain ⟨-, j, low', high', there⟩ :=
        swept.rests_in_arm draws elidable reached arm inside named rests blank
      have := draws.sound.number_unique here there
      omega
  -- The second arm has no parts, so control comes to rest behind both.
  have first : a.parts = [] := by
    by_contra filled
    obtain ⟨-, i, low, high, here⟩ :=
      swept.rests_in_arm draws elidable reached arm inside named rests filled
    exact swept.not_rests_back draws contained named' (Nat.le_refl t') rests' low high here
  exact ⟨first, second⟩

/-- What is found where control comes to rest behind a block, if the parts of the block are known. -/
theorem Swept.shuts {lines : List String} {p : Ending (Option Nat)} {f : Ending Nat}
    (inside : i ∈ 0 :: live) (has : g.Has i lines p) (closes : g.Closes held p)
    (rel : f.Rel g.Place p) (rests : f.resolved.Rel g₁.Rests e) : Shuts g₁.text held e := by
  cases closes with
  | goes passes =>
    cases rel
    cases rests
    exact .goes passes
  | returns tokens passes =>
    cases rel
    cases rests with
    | goes rests =>
      obtain rfl := rests.1.of_stays elidable.tidy.stays_exit
      exact .returns tokens passes
  | @branches passed a b t t' condition passes forks =>
    obtain ⟨r, -, arm, arm', -⟩ := forks.arms
    have first := reached.target inside has (v := t) (by simp [Ending.targets])
    have second := reached.target inside has (v := t') (by simp [Ending.targets])
    cases rel with
    | branches place place' =>
      cases rests with
      | branches rests rests' =>
        refine .branches passes ?_ ?_ fun same => ?_
        · exact swept.openIn draws elidable reached arm first place rests
        · exact swept.openIn draws elidable reached arm' second place' rests'
        · subst same
          exact swept.arms_apart draws elidable reached forks first second place place' rests
            rests'
  | @loops passed header t k r past passes isLoop enters =>
    have first := reached.target inside has (v := t) (by simp [Ending.targets])
    cases rel with
    | loops place place' =>
      cases rests with
      | loops rests rests' =>
        exact .loops passes isLoop (swept.openIn draws elidable reached enters first place rests)

/-- The sweep leaves every part in its block. -/
theorem Swept.stocked (listed : L.map (·.2) = parts) (within : ∀ a ∈ L, a.1 ∈ 0 :: live)
    (stored : ∀ u ∈ 0 :: live, ∀ lines e, g.Has u lines e →
      lines = fragmentsOf (partsAt L u) ∧ g.Closes (partsAt L u) e) :
    Stocked g g₁ parts (g.holds L) where
  all := by
    have roll := map_eq_of_forall₂ (swept.roll draws reached) fun i h named =>
      (draws.holds_named named (L := L)).symm
    have nodup : (0 :: live).Nodup := reached.sorted.imp fun less => Nat.ne_of_lt less
    rw [List.flatMap_def, ← roll, ← List.flatMap_def, ← listed]
    exact flatMap_partsAt_perm nodup within
  lines h x known body := by
    obtain ⟨rfl, rfl⟩ | ⟨rfl, rfl⟩ | ⟨i, lines, e, f, inside, named, has, -, rfl, -⟩ :=
      swept.live_cases draws known
    · cases body
    · cases body
    · rw [draws.holds_named named]
      exact (stored i inside lines e has).1
  shuts h e settles := by
    -- How the block was left before the sweep is known from its number; `rests` says where control
    -- comes to rest from there.
    obtain ⟨stays, x, f, known, ends, rests⟩ := settles
    obtain ⟨rfl, rfl⟩ | ⟨rfl, rfl⟩ | ⟨i, lines, e', f', inside, named, has, -, rfl, rel⟩ :=
      swept.live_cases draws known
    · obtain rfl := ends.unique (.goes rfl rfl rfl rfl)
      cases rests
      have none : g.number? entry = none := by rw [number?, draws.sound.entry]; rfl
      simp only [holds, none]
      exact .goes (by simp)
    · exact absurd rfl (elidable.tidy.ne_exit known ends)
    · obtain rfl := ends.unique (Ending.block_ends fun body after eq =>
        (draws.loop_apart named has (eq ▸ rel)).1)
      rw [draws.holds_named named]
      exact swept.shuts draws elidable reached inside has (stored i inside lines e' has).2 rel rests
  sealing h x known body := by
    have core := (swept.of_live draws known).2
    refine ⟨x, core, List.prefix_rfl, ?_⟩
    rw [and_iff_left rfl]
    obtain ⟨rfl, rfl⟩ | ⟨rfl, rfl⟩ | ⟨i, lines, e, f, inside, named, has, -, rfl, rel⟩ :=
      swept.live_cases draws known
    · cases body
    · cases body
    · rw [draws.holds_named named]
      exact (stored i inside lines e has).2.sealed_iff rel

end Swept

/-! ## Through the passes behind it -/

/-- An element of a list without duplicates can be brought to the front. -/
theorem perm_front {l : List Nat} (nodup : l.Nodup) (member : h ∈ l) :
    (h :: l.filter (· != h)).Perm l := by
  rw [← nodup.erase_eq_filter]
  exact (List.perm_cons_erase member).symm

/-- What two blocks of a list hold may as well be held by one of them. -/
theorem perm_update {l : List Nat} (nodup : l.Nodup) (member : h ∈ l) (member' : next ∈ l)
    (other : h ≠ next) :
    ((l.filter (· != next)).flatMap (Function.update C h (C h ++ C next))).Perm (l.flatMap C) := by
  have front := perm_front nodup member'
  have inside : h ∈ l.filter (· != next) := List.mem_filter.2 ⟨member, by simpa using other⟩
  have front' := perm_front (nodup.filter _) inside
  -- The two blocks are brought to the front; the others hold what they did.
  have same : ∀ k ∈ (l.filter (· != next)).filter (· != h),
      Function.update C h (C h ++ C next) k = C k := by
    intro k member
    have other : k ≠ h := by simpa using (List.mem_filter.1 member).2
    exact Function.update_of_ne other _ _
  have now := front'.symm.flatMap_right (Function.update C h (C h ++ C next))
  rw [List.flatMap_cons, List.flatMap_congr same, Function.update_self] at now
  have before := ((front'.flatMap_right C).append_left (C next)).trans (front.flatMap_right C)
  rw [List.flatMap_cons, ← List.append_assoc] at before
  exact now.trans ((List.perm_append_comm.append_right _).trans before)

namespace Stocked

variable (stocked : Stocked g₀ g parts C)

include stocked

/-- An empty block holds no part, so none is lost when it is bypassed. -/
theorem elides (elidable : g.Elidable) (elides : g.Elides h next g') : Stocked g₀ g' parts C where
  all := by
    obtain ⟨x, known, body, empty, -⟩ := elides.empty
    have none : C h = [] := fragmentsOf_eq_nil.1 ((stocked.lines h x known body).symm.trans empty)
    have nodup : g.roll.Nodup := elidable.tidy.nodup.filter _
    have front := perm_front nodup (elidable.tidy.mem_roll known body)
    rw [elides.roll_eq elidable.tidy]
    have all := (front.flatMap_right C).trans stocked.all
    rwa [List.flatMap_cons, none, List.nil_append] at all
  lines k y known body := by
    obtain ⟨-, x, known', rfl⟩ := elides.live_inv elidable.tidy known
    rw [Block.lines_bypassing]
    exact stocked.lines k x known' (by simpa using body)
  shuts k e settles := by
    have shuts := stocked.shuts k e ((elides.settles_iff elidable).1 settles)
    exact shuts.grow fun v _ => (elides.text_eq elidable).symm ▸ List.prefix_rfl
  sealing k y known body := by
    obtain ⟨-, x, known', rfl⟩ := elides.live_inv elidable.tidy known
    rw [Block.lines_bypassing, Block.sealed_bypassing]
    exact stocked.sealing k x known' (by simpa using body)

theorem elided {hs : List Nat} (elidable : g.Elidable) (elided : Elided hs g g') :
    Stocked g₀ g' parts C := by
  induction elided with
  | nil => exact stocked
  | cons first _ ih => exact ih (stocked.elides elidable first) (elidable.elides first)

/-- A block that can absorb another one holds nothing but parts that pass control on. -/
theorem passes_of_merges (mergeable : g.Mergeable) (merges : g.Merges h next) :
    ∀ x ∈ C h, x.Passes := by
  obtain ⟨x, known, body, -⟩ := id merges.leads
  obtain ⟨e, ends, -⟩ := mergeable.tidy.ends h x known body
  refine (stocked.shuts h e (mergeable.settles_iff.2 ⟨x, known, ends⟩)).passes_of_sole ends ?_
    merges.inner
  intro v target
  exact merges.flow_iff.1 ⟨x, known, ends.mem_successors.2 target⟩

omit stocked in
/-- A block that is not absorbed can only grow. -/
theorem prefix_of_absorbs (tidy : g.Tidy) (absorbs : g.Absorbs h next g') (away : v ≠ next) :
    g.text v <+: g'.text v := by
  by_cases self : v = h
  · subst self
    obtain ⟨x, known, -⟩ := absorbs.merges.leads
    obtain ⟨y, known', -⟩ := absorbs.merges.target tidy.woven
    rw [text_of_live known, text_of_live (absorbs.live_self known known')]
    exact List.prefix_append _ _
  · have kept : g'.text v = g.text v := by rw [text, text, absorbs.live_other self away]
    exact kept ▸ List.prefix_rfl

/-- A block takes over the parts of the block that it absorbs. -/
theorem absorbs (mergeable : g.Mergeable) (absorbs : g.Absorbs h next g') :
    Stocked g₀ g' parts (Function.update C h (C h ++ C next)) := by
  have tidy := mergeable.tidy
  have merges := absorbs.merges
  have passes := stocked.passes_of_merges mergeable merges
  obtain ⟨x, known, body, -⟩ := merges.leads
  obtain ⟨y, known', body'⟩ := merges.target tidy.woven
  have gone : ∀ {k z}, g'.live? k = some z → k ≠ next := by
    rintro k z found rfl
    cases (absorbs.live_next tidy.woven).symm.trans found
  constructor
  case all =>
    rw [absorbs.roll_eq tidy.woven]
    exact (perm_update (tidy.nodup.filter _) (tidy.mem_roll known body)
      (tidy.mem_roll known' body') merges.other.symm).trans stocked.all
  case lines =>
    intro k z found kind
    by_cases self : k = h
    · subst self
      cases found.symm.trans (absorbs.live_self known known')
      rw [Function.update_self, fragmentsOf_append, ← stocked.lines k x known body,
        ← stocked.lines next y known' body']
      rfl
    · rw [absorbs.live_other self (gone found)] at found
      rw [Function.update_of_ne self]
      exact stocked.lines k z found kind
  case shuts =>
    intro k e settles
    obtain ⟨z, found, ends⟩ := (mergeable.absorbs absorbs).settles_iff.1 settles
    have grown : ∀ v ∈ e.targets Graph.exit, g.text v <+: g'.text v := by
      intro v target
      refine prefix_of_absorbs tidy absorbs fun same => ?_
      subst same
      exact absorbs.not_flow_to_next tidy.woven ⟨z, found, ends.mem_successors.2 target⟩
    by_cases self : k = h
    · subst self
      cases found.symm.trans (absorbs.live_self known known')
      rw [Function.update_self]
      -- The block now ends as the one that it has absorbed did.
      have settles' := mergeable.settles_iff.2 ⟨y, known', Block.ends_merged.1 ends⟩
      exact ((stocked.shuts next e settles').grow grown).prepend passes
    · rw [absorbs.live_other self (gone found)] at found
      rw [Function.update_of_ne self]
      exact (stocked.shuts k e (mergeable.settles_iff.2 ⟨z, found, ends⟩)).grow grown
  case sealing =>
    intro k z found kind
    by_cases self : k = h
    · -- The block had no return, and has grown.
      subst self
      cases found.symm.trans (absorbs.live_self known known')
      obtain ⟨w, core, starts, flag⟩ := stocked.sealing k x known body
      have more : (x.merged y).lines = x.lines ++ y.lines := rfl
      have filled := mergeable.filled next y known' body'
      refine ⟨w, core, starts.trans (List.prefix_append _ _), ?_⟩
      rw [endsInReturn_of_passes passes] at flag
      constructor
      · intro sealed
        exact absurd (flag.1 sealed).1 Bool.false_ne_true
      · rintro ⟨-, same⟩
        have longer := starts.length_le
        have shorter := congrArg List.length (more.symm.trans same)
        rw [List.length_append] at shorter
        exact absurd (List.eq_nil_of_length_eq_zero (by omega)) filled
    · rw [absorbs.live_other self (gone found)] at found
      rw [Function.update_of_ne self]
      exact stocked.sealing k z found kind

end Stocked

theorem Stocked.visited (stocked : Stocked g₀ g parts C) (mergeable : g.Mergeable)
    (visited : Visited h n g g') : ∃ C', Stocked g₀ g' parts C' := by
  induction visited generalizing C with
  | stop => exact ⟨C, stocked⟩
  | step first _ ih => exact ih (stocked.absorbs mergeable first) (mergeable.absorbs first)

theorem Stocked.merged {l : List Nat} (stocked : Stocked g₀ g parts C) (mergeable : g.Mergeable)
    (merged : Merged l n g g') : ∃ C', Stocked g₀ g' parts C' := by
  induction merged generalizing C with
  | nil => exact ⟨C, stocked⟩
  | gone _ _ ih => exact ih stocked mergeable
  | visit _ first _ ih =>
    obtain ⟨C', stocked'⟩ := stocked.visited mergeable first
    exact ih stocked' (mergeable.visited first)

theorem Canonical.mergeable (canonical : g.Canonical) : g.Mergeable :=
  ⟨canonical.tidy, canonical.filled, canonical.passable⟩

/-- What the blocks of a pruned graph hold. -/
theorem Pruned.stocked {report : PruneReport} (draws : g.Draws f) (reached : g.Reached live)
    (pruned : g.Pruned live g' report) : ∃ C, Stocked g g' f.body.parts C := by
  obtain ⟨g₁, g₂, g₃, swept, elided, merged, rfl, -⟩ := id pruned.steps
  obtain ⟨L, listed, within, stored⟩ := draws.stores reached
  have elidable := swept.elidable draws reached
  have mergeable := elidable.mergeable elided
  have left := swept.stocked draws elidable reached listed within stored
  obtain ⟨C, stocked⟩ := (left.elided elidable elided).merged mergeable merged
  refine ⟨C, stocked.all, stocked.lines, fun h e settles => ?_, stocked.sealing⟩
  -- The numbers that the last pass gives do not matter to where control goes.
  have canonical := pruned.canonical draws reached
  obtain ⟨x, known, ends⟩ := canonical.mergeable.settles_iff.1 settles
  exact stocked.shuts h e ((mergeable.merged merged).settles_iff.2 ⟨x, known, ends⟩)

/-- The fragments of the numbered blocks that are alive, block by block. -/
def liveFragments (g : Graph) : List String := g.roll.flatMap fun h => (g.filed h).2.lines

/-- In a pruned graph everything is written that control can come to, and nothing else. -/
theorem Pruned.liveFragments_perm {report : PruneReport} (draws : g.Draws f) (reached : g.Reached live)
    (pruned : g.Pruned live g' report) : g'.liveFragments.Perm (fragmentsOf f.body.parts) := by
  obtain ⟨C, stocked⟩ := pruned.stocked draws reached
  have tidy := (pruned.canonical draws reached).tidy
  have each : ∀ h ∈ g'.roll, (g'.filed h).2.lines = fragmentsOf (C h) := by
    intro h member
    obtain ⟨x, known, body⟩ := tidy.live_of_mem_roll member
    rw [known.filed]
    exact stocked.lines h x.core known.core body
  rw [liveFragments, List.flatMap_congr each]
  simp only [fragmentsOf, ← List.flatMap_assoc]
  exact stocked.all.flatMap_right Part.fragments

/-- How a live block of a pruned graph ends, and with which parts. -/
theorem Stocked.shuts_live (stocked : Stocked g₀ g parts C) (canonical : g.Canonical)
    (live : g.Live h x) (body : x.kind = .body) : ∃ e, x.Ends e ∧ Shuts g.text (C h) e := by
  obtain ⟨e, ends, -⟩ := canonical.tidy.ends h x.core live.core body
  exact ⟨e, ends.congr rfl rfl rfl rfl,
    stocked.shuts h e (canonical.mergeable.settles_iff.2 ⟨x.core, live.core, ends⟩)⟩

end Graph

end Flowgraph
