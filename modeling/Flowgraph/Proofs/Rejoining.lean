import Flowgraph.Proofs.Mirrors

/-!
# Splitting a block changes no outline

One graph has two blocks in a row where another has a single block with the fragments of both; apart
from that their blocks correspond.  If one of the two is empty it is looked through, and otherwise
they are joined.  So after a contraction, if any, the outlines of the two graphs mirror each other.
-/

namespace Flowgraph

open Relator Relation

/-- Two endings that are related to one are completed to a square. -/
theorem Ending.Rel.fill {α β γ δ : Type} {A : α → β → Prop} {B : α → γ → Prop} {P : β → δ → Prop}
    {Q : γ → δ → Prop} {e : Ending α} {e' : Ending β} {f : Ending γ} (rel : e.Rel A e')
    (rel' : e.Rel B f) (square : ∀ a b c, A a b → B a c → ∃ d, P b d ∧ Q c d) :
    ∃ f', e'.Rel P f' ∧ f.Rel Q f' := by
  cases rel with
  | goes r =>
    cases rel' with
    | goes s =>
      obtain ⟨d, p, q⟩ := square _ _ _ r s
      exact ⟨_, .goes p, .goes q⟩
  | returns =>
    cases rel'
    exact ⟨_, .returns, .returns⟩
  | branches r r' =>
    cases rel' with
    | branches s s' =>
      obtain ⟨d, p, q⟩ := square _ _ _ r s
      obtain ⟨d', p', q'⟩ := square _ _ _ r' s'
      exact ⟨_, .branches p p', .branches q q'⟩
  | loops r r' =>
    cases rel' with
    | loops s s' =>
      obtain ⟨d, p, q⟩ := square _ _ _ r s
      obtain ⟨d', p', q'⟩ := square _ _ _ r' s'
      exact ⟨_, .loops p p', .loops q q'⟩

namespace Graph

variable {R T C : Nat → Nat → Prop} {g g' : Graph} {h h' t t' u v w : Nat} {e f f' : Ending Nat}
  {x x' : Block}

/-- The block is empty and leads to `next`. -/
def Through (g : Graph) (t next : Nat) : Prop :=
  ∃ x, g.live? t = some x ∧ x.kind = .body ∧ x.lines = [] ∧ x.Ends (.goes next)

theorem Through.not_stays (through : g.Through t w) : ¬ g.Stays t := by
  intro stays
  obtain ⟨x, known, body, empty, -⟩ := through
  obtain ⟨y, known', filled⟩ := stays
  cases known.symm.trans known'
  exact filled body empty

/-- Control comes to rest in the second graph where it does in the first: wherever it is, it rests at
once in both, or it passes an empty block in the first and at most one in the second. -/
def Follows (g g' : Graph) (R T : Nat → Nat → Prop) : Prop :=
  ∀ t t', T t t' → g.Stays t ∧ g'.Stays t' ∧ R t t' ∨
    ∃ w, g.Through t w ∧ (T w t' ∨ ∃ w', g'.Through t' w' ∧ T w w')

theorem Follows.rests (follows : Follows g g' R T) (rests : g.Rests t v) (same : T t t') :
    ∃ v', g'.Rests t' v' ∧ R v v' := by
  obtain ⟨way, stays⟩ := rests
  -- The induction is on the blocks that are passed in the first graph; the second may wait.
  induction way generalizing t' with
  | refl t =>
    obtain ⟨-, stays', related⟩ | ⟨w, through, -⟩ := follows t t' same
    · exact ⟨t', .of_stays stays', related⟩
    · exact absurd stays through.not_stays
  | @step t w v x known body empty member _ ih =>
    obtain ⟨⟨y, known', filled⟩, -, -⟩ | ⟨next, ⟨y, known', -, -, ends⟩, onward⟩ :=
      follows t t' same
    · cases known.symm.trans known'
      exact absurd empty (filled body)
    · cases known.symm.trans known'
      rw [ends.mem_successors, Ending.targets, List.mem_singleton] at member
      subst member
      obtain later | ⟨w', ⟨y', found, body', empty', ends'⟩, later⟩ := onward
      · exact ih later stays
      · obtain ⟨v', ⟨way', stays'⟩, related⟩ := ih later stays
        have member' := ends'.mem_successors.2 (List.mem_singleton_self w')
        exact ⟨v', ⟨.step found body' empty' member' way', stays'⟩, related⟩

/-- The two blocks lead to related blocks. -/
def Agrees (g g' : Graph) (T : Nat → Nat → Prop) (h h' : Nat) : Prop :=
  ∃ x x' f f', g.live? h = some x ∧ g'.live? h' = some x' ∧ x.Ends f ∧ x'.Ends f' ∧ f.Rel T f'

theorem Agrees.mono (agrees : Agrees g g' C h h') (le : ∀ a b, C a b → T a b) :
    Agrees g g' T h h' := by
  obtain ⟨x, x', f, f', known, known', ends, ends', rel⟩ := agrees
  exact ⟨x, x', f, f', known, known', ends, ends', rel.mono le⟩

theorem Follows.settles (follows : Follows g g' R T) (agrees : Agrees g g' T h h')
    (stays' : g'.Stays h') (settles : g.Settles h e) : ∃ e', g'.Settles h' e' ∧ e.Rel R e' := by
  obtain ⟨x, x', f, f', known, known', ends, ends', rel⟩ := agrees
  obtain ⟨-, y, f₀, found, ends₀, rel₀⟩ := settles
  cases known.symm.trans found
  obtain rfl := ends.unique ends₀
  obtain ⟨e', rests, related⟩ := rel.fill rel₀ fun t t' v same rests => follows.rests rests same
  exact ⟨e', ⟨stays', x', f', known', ends', rests⟩, related⟩

/-! ## Graphs whose blocks correspond -/

/-- The fragments of two corresponding blocks are the same, or the blocks are the two forms of the
header `header` of a loop, with the fragments `old` and `new`. -/
def Reworded (g : Graph) (header : Nat) (old new : List String) (h : Nat) (l l' : List String) :
    Prop :=
  l = l' ∨ h = header ∧ l = old ∧ l' = new ∧
    ∃ x body after, g.live? h = some x ∧ x.kind = .body ∧ x.Ends (.loops body after)

/-- The blocks of the two graphs correspond, apart from the odd ones of the first graph. -/
structure Likens (C : Nat → Nat → Prop) (odd : Nat → Prop) (header : Nat) (old new : List String)
    (g g' : Graph) : Prop where
  elidable : g.Elidable
  elidable' : g'.Elidable
  unique : BiUnique C
  entry : C entry entry
  exit : C exit exit
  agrees : ∀ h h', C h h' → ¬ odd h → h ≠ Graph.exit → Agrees g g' C h h'
  text : ∀ h h', C h h' → ¬ odd h → Reworded g header old new h (g.text h) (g'.text h')
  old : old ≠ []
  new : new ≠ []
  partner' : ∀ h', g'.Stays h' → ∃ h, C h h'

namespace Likens

variable {odd : Nat → Prop} {header : Nat} {old new : List String}
  (likens : Likens C odd header old new g g')

include likens

theorem live (same : C h h') (even : ¬ odd h) :
    ∃ x x', g.live? h = some x ∧ g'.live? h' = some x' ∧ x.kind = x'.kind := by
  by_cases stop : h = Graph.exit
  · subst stop
    obtain rfl := likens.unique.right same likens.exit
    exact ⟨_, _, likens.elidable.tidy.exit, likens.elidable'.tidy.exit, rfl⟩
  · obtain ⟨x, x', f, f', known, known', -⟩ := likens.agrees h h' same even stop
    refine ⟨x, x', known, known', ?_⟩
    rw [likens.elidable.tidy.kinds h x (live?_eq_some.1 known).1,
      likens.elidable'.tidy.kinds h' x' (live?_eq_some.1 known').1]
    exact BlockKind.ofHandle_eq_of_rel likens.unique likens.entry likens.exit same

theorem stays_iff (same : C h h') (even : ¬ odd h) : g.Stays h ↔ g'.Stays h' := by
  obtain ⟨x, x', known, known', kind⟩ := likens.live same even
  have text := likens.text h h' same even
  rw [text_of_live known, text_of_live known'] at text
  have empty : x.lines = [] ↔ x'.lines = [] := by
    obtain same | ⟨-, old, new, -⟩ := text
    · rw [same]
    · simp [old, new, likens.old, likens.new]
  simp [Stays, known, known', kind, empty]

/-- Where control is at corresponding blocks it goes on in the same way. -/
theorem follow (same : C t t') (even : ¬ odd t) (le : ∀ a b, C a b → T a b)
    (rest : g.Stays t → R t t') : g.Stays t ∧ g'.Stays t' ∧ R t t' ∨
      ∃ w, g.Through t w ∧ (T w t' ∨ ∃ w', g'.Through t' w' ∧ T w w') := by
  have iff := likens.stays_iff same even
  by_cases stays : g.Stays t
  · exact .inl ⟨stays, iff.1 stays, rest stays⟩
  · have other : t ≠ Graph.exit := by
      rintro rfl
      exact stays likens.elidable.tidy.stays_exit
    obtain ⟨x, x', f, f', known, known', ends, ends', rel⟩ := likens.agrees t t' same even other
    obtain ⟨body, empty⟩ := (stays_or_empty known).resolve_left stays
    obtain ⟨body', empty'⟩ := (stays_or_empty known').resolve_left (mt iff.2 stays)
    obtain ⟨w, goes, -⟩ := likens.elidable.tidy.goes_of_empty likens.elidable.rises known body empty
    obtain rfl := ends.unique goes
    cases rel with
    | goes related =>
      exact .inr ⟨w, ⟨x, known, body, empty, goes⟩, .inr ⟨_, ⟨x', known', body', empty', ends'⟩,
        le _ _ related⟩⟩

/-- From a block that is not odd, control comes to rest in related places. -/
theorem settles (follows : Follows g g' R T) (le : ∀ a b, C a b → T a b) (same : C h h')
    (even : ¬ odd h) (settles : g.Settles h e) : ∃ e', g'.Settles h' e' ∧ e.Rel R e' := by
  have other : h ≠ Graph.exit := by
    rintro rfl
    exact likens.elidable.proper.final e settles
  have agrees := (likens.agrees h h' same even other).mono le
  exact follows.settles agrees ((likens.stays_iff same even).1 settles.1) settles

end Likens

/-- The outline `O` of the first graph mirrors that of the second, and graphs that show the two hold
the same blocks in the same order, up to the header `header`. -/
structure Renders (R : Nat → Nat → Prop) (O : Outline) (header : Nat) (old new : List String)
    (g g' : Graph) : Prop where
  mirrors : O.Mirrors R g'.outline
  shown : ∀ {G : Graph}, g.outline.Shown G → O.Shown G
  roll : ∃ l, List.Forall₂ R l g'.roll ∧
    ∀ p : Nat → Bool, (∀ h, p h = true → O.stays h) → g.roll.filter p = l.filter p
  text : ∀ h h', R h h' → O.lines h = g'.text h' ∨
    h = header ∧ O.lines h = old ∧ g'.text h' = new ∧ ∃ u v, O.settles h (.loops u v) ∧ u ≠ v

theorem stays_iff_text (known : g.live? h = some x) (body : x.kind = .body) :
    g.Stays h ↔ g.text h ≠ [] := by
  rw [text_of_live known]
  constructor
  · intro stays
    obtain ⟨y, known', filled⟩ := stays
    cases known.symm.trans known'
    exact filled body
  · intro filled
    exact ⟨x, known, fun _ => filled⟩

theorem Tidy.inner (tidy : g.Tidy) (known : g.live? h = some x) (body : x.kind = .body) :
    2 ≤ h := by
  rw [tidy.kinds h x (live?_eq_some.1 known).1] at body
  exact BlockKind.ofHandle_eq_body.1 body

/-- The two ways from the header of a loop come to rest in different places. -/
theorem Elidable.settles_loops (elidable : g.Elidable) {body after : Nat}
    (known : g.live? h = some x) (kind : x.kind = .body) (ends : x.Ends (.loops body after))
    (stays : g.Stays h) : ∃ u v, g.Settles h (.loops u v) ∧ u ≠ v := by
  obtain ⟨e, settles⟩ := elidable.settles_total stays (elidable.tidy.ne_exit known ends)
  obtain ⟨-, y, f, known', ends', rel⟩ := id settles
  cases known.symm.trans known'
  obtain rfl := ends.unique ends'
  cases rel with
  | loops into past =>
    refine ⟨_, _, settles, ?_⟩
    rintro rfl
    exact elidable.apart h x body after known kind ends _ into.1 past.1

section Renders

variable {odd : Nat → Prop} {header : Nat} {old new : List String} {O : Outline}

/-- The fragments of corresponding blocks that are not odd. -/
theorem Likens.text_eq (likens : Likens C odd header old new g g') (same : C h h') (even : ¬ odd h)
    (lines : O.lines h = g.text h) (settles : ∀ e, g.Settles h e → O.settles h e) :
    O.lines h = g'.text h' ∨
      h = header ∧ O.lines h = old ∧ g'.text h' = new ∧
        ∃ u v, O.settles h (.loops u v) ∧ u ≠ v := by
  rw [lines]
  obtain eq | ⟨here, eq, eq', x, body, after, known, kind, ends⟩ := likens.text h h' same even
  · exact .inl eq
  · have stays := (stays_iff_text known kind).2 (eq ▸ likens.old)
    obtain ⟨u, v, settles', apart⟩ := likens.elidable.settles_loops known kind ends stays
    exact .inr ⟨here, eq, eq', u, v, settles _ settles', apart⟩

/-- Graphs all of whose blocks correspond. -/
theorem Likens.renders (likens : Likens C (fun _ => False) header old new g g')
    (partner : ∀ h, g.Stays h → ∃ h', C h h') (roll : List.Forall₂ C g.roll g'.roll) :
    Renders C g.outline header old new g g' where
  mirrors := by
    have follows : Follows g g' C C := fun t t' same =>
      likens.follow same id (fun _ _ => id) fun _ => same
    apply Outline.Mirrors.of_settles likens.unique likens.entry likens.exit
      (fun h h' same => likens.stays_iff same id) partner likens.partner' _
      likens.elidable.proper.total likens.elidable'.proper
    intro h h' e same settles
    exact likens.settles follows (fun _ _ => id) same id settles
  shown := id
  roll := ⟨g.roll, roll, fun _ _ => rfl⟩
  text h h' same := likens.text_eq same id rfl fun _ => id

end Renders

/-! ## A block that was split -/

/-- The blocks `q` and `u` of the first graph are the block `b` of the second; all other blocks
correspond. -/
structure Split (C : Nat → Nat → Prop) (header : Nat) (old new : List String) (g g' : Graph)
    (q u b : Nat) : Prop extends Likens C (· = q) header old new g g' where
  blocks : ∃ x y z n n', g.live? q = some x ∧ g.live? u = some y ∧ g'.live? b = some z ∧
    (x.kind = .body ∧ y.kind = .body ∧ z.kind = .body) ∧
    x.Ends (.goes u) ∧ y.Ends (.goes n) ∧ z.Ends (.goes n') ∧ C n n'
  joint : g'.text b = g.text q ++ g.text u
  pair : C q b
  lone : ∀ h', ¬ C u h'
  only : ∀ w, g.Flow w u → w = q
  partner : ∀ h, g.Stays h → h ≠ u → ∃ h', C h h'
  places : ∃ l r l' r', g.roll = l ++ q :: u :: r ∧ g'.roll = l' ++ b :: r' ∧
    List.Forall₂ C l l' ∧ List.Forall₂ C r r'

namespace Split

variable {header : Nat} {old new : List String} {q b : Nat}
  (split : Split C header old new g g' q u b)

include split

theorem stays_first : g.Stays q ↔ g.text q ≠ [] := by
  obtain ⟨x, y, z, n, n', known, -, -, ⟨body, -, -⟩, -⟩ := split.blocks
  exact stays_iff_text known body

theorem stays_second : g.Stays u ↔ g.text u ≠ [] := by
  obtain ⟨x, y, z, n, n', -, known, -, ⟨-, body, -⟩, -⟩ := split.blocks
  exact stays_iff_text known body

theorem stays_both : g'.Stays b ↔ g.text q ≠ [] ∨ g.text u ≠ [] := by
  obtain ⟨x, y, z, n, n', -, -, known, ⟨-, -, body⟩, -⟩ := split.blocks
  rw [stays_iff_text known body, split.joint, ne_eq, List.append_eq_nil_iff, not_and_or]

theorem through_first (empty : g.text q = []) : g.Through q u := by
  obtain ⟨x, y, z, n, n', known, -, -, ⟨body, -, -⟩, ends, -⟩ := split.blocks
  exact ⟨x, known, body, (text_of_live known).symm.trans empty, ends⟩

theorem second_ne : u ≠ q := by
  rintro rfl
  exact split.lone b split.pair

/-- The roll of the other graph is that of the first without the second block. -/
theorem roll_first : ∃ l, List.Forall₂ C l g'.roll ∧
    ∀ p : Nat → Bool, p u = false → g.roll.filter p = l.filter p := by
  obtain ⟨l, r, l', r', eq, eq', first, second⟩ := split.places
  refine ⟨l ++ q :: r, ?_, fun p gone => ?_⟩
  · rw [eq']
    exact List.rel_append first (.cons split.pair second)
  · simp [eq, List.filter_cons, gone]

/-- The blocks correspond, or they are `u` and `v`. -/
def Extended (C : Nat → Nat → Prop) (u v h h' : Nat) : Prop := C h h' ∨ h = u ∧ h' = v

/-- The blocks correspond, but the second block of the two stands for the single one. -/
def Moved (C : Nat → Nat → Prop) (q u b h h' : Nat) : Prop := C h h' ∧ h ≠ q ∨ h = u ∧ h' = b

theorem moved_unique : BiUnique (Moved C q u b) := by
  constructor
  · intro h k h' left right
    obtain ⟨left, away⟩ | ⟨rfl, rfl⟩ := left
    · obtain ⟨right, -⟩ | ⟨rfl, rfl⟩ := right
      · exact split.unique.left left right
      · exact absurd (split.unique.left left split.pair) away
    · obtain ⟨right, away⟩ | ⟨rfl, -⟩ := right
      · exact absurd (split.unique.left right split.pair) away
      · rfl
  · intro h h' k' left right
    obtain ⟨left, -⟩ | ⟨rfl, rfl⟩ := left
    · obtain ⟨right, -⟩ | ⟨rfl, -⟩ := right
      · exact split.unique.right left right
      · exact absurd left (split.lone _)
    · obtain ⟨right, -⟩ | ⟨-, rfl⟩ := right
      · exact absurd right (split.lone _)
      · rfl

theorem roll_second : ∃ l, List.Forall₂ (Moved C q u b) l g'.roll ∧
    ∀ p : Nat → Bool, p q = false → g.roll.filter p = l.filter p := by
  obtain ⟨l, r, l', r', eq, eq', first, second⟩ := split.places
  have nodup : g.roll.Nodup := split.elidable.tidy.nodup.filter _
  rw [eq] at nodup
  have before : ∀ h ∈ l, h ≠ q := by
    rintro h member rfl
    exact (List.nodup_append.1 nodup).2.2 h member h List.mem_cons_self rfl
  have after : ∀ h ∈ r, h ≠ q := by
    rintro h member rfl
    have fresh := (List.nodup_cons.1 (List.nodup_append.1 nodup).2.1).1
    exact fresh (List.mem_cons_of_mem u member)
  refine ⟨l ++ u :: r, ?_, fun p gone => ?_⟩
  · rw [eq']
    refine List.rel_append ?_ (.cons (.inr ⟨rfl, rfl⟩) ?_)
    · exact ((List.forall₂_and_left l l').2 ⟨before, first⟩).imp fun _ _ both => .inl both.symm
    · exact ((List.forall₂_and_left r r').2 ⟨after, second⟩).imp fun _ _ both => .inl both.symm
  · simp [eq, List.filter_cons, gone]

/-! ### One of the two is empty -/

/-- The second block is empty, so it is looked through. -/
theorem follows_of_second_empty (empty : g.text u = []) {n n' : Nat} {y z : Block}
    (known₂ : g.live? u = some y) (known' : g'.live? b = some z) (body₂ : y.kind = .body)
    (body' : z.kind = .body) (ends₂ : y.Ends (.goes n)) (ends' : z.Ends (.goes n'))
    (behind : C n n') : Follows g g' C (Extended C u n') := by
  have stays : g.Stays q ↔ g'.Stays b := by
    rw [split.stays_first, split.stays_both]
    simp [empty]
  intro t t' same
  obtain same | ⟨rfl, rfl⟩ := same
  · by_cases here : t = q
    · subst here
      obtain rfl := split.unique.right same split.pair
      by_cases filled : g.Stays t
      · exact .inl ⟨filled, stays.1 filled, same⟩
      · -- Both blocks are passed, and so is the single one.
        have none : g.text t = [] := not_not.1 (mt split.stays_first.2 filled)
        have none' : z.lines = [] := by
          rw [← text_of_live known', split.joint, none, empty]
          rfl
        exact .inr ⟨u, split.through_first none, .inr ⟨n', ⟨z, known', body', none', ends'⟩,
          .inr ⟨rfl, rfl⟩⟩⟩
    · exact split.follow same here (fun _ _ => .inl) fun _ => same
  · have none : y.lines = [] := (text_of_live known₂).symm.trans empty
    exact .inr ⟨n, ⟨y, known₂, body₂, none, ends₂⟩, .inl (.inl behind)⟩

theorem renders_of_second_empty (empty : g.text u = []) :
    Renders C g.outline header old new g g' := by
  obtain ⟨x, y, z, n, n', known, known₂, known', ⟨-, body₂, body'⟩, ends, ends₂, ends', behind⟩ :=
    split.blocks
  have stays : g.Stays q ↔ g'.Stays b := by
    rw [split.stays_first, split.stays_both]
    simp [empty]
  -- Control never rests in the second block, so the outline has to lose nothing.
  have dead : ¬ g.Stays u := fun stays => split.stays_second.1 stays empty
  have follows := split.follows_of_second_empty empty known₂ known' body₂ body' ends₂ ends' behind
  refine ⟨?_, id, ?_, fun h h' same => ?_⟩
  · apply Outline.Mirrors.of_settles split.unique split.entry split.exit _ _ split.partner' _
      split.elidable.proper.total split.elidable'.proper
    · intro h h' same
      by_cases here : h = q
      · subst here
        obtain rfl := split.unique.right same split.pair
        exact stays
      · exact split.stays_iff same here
    · intro h filled
      apply split.partner h filled
      rintro rfl
      exact dead filled
    · intro h h' e same settles
      by_cases here : h = q
      · subst here
        obtain rfl := split.unique.right same split.pair
        exact follows.settles ⟨x, z, _, _, known, known', ends, ends', .goes (.inr ⟨rfl, rfl⟩)⟩
          (stays.1 settles.1) settles
      · exact split.settles follows (fun _ _ => .inl) same here settles
  · obtain ⟨l, related, same⟩ := split.roll_first
    exact ⟨l, related, fun p shown =>
      same p (Bool.eq_false_iff.2 fun holds => dead (shown u holds))⟩
  · by_cases here : h = q
    · subst here
      obtain rfl := split.unique.right same split.pair
      left
      show g.text h = g'.text h'
      rw [split.joint, empty, List.append_nil]
    · exact split.text_eq same here rfl fun _ => id

/-- The first block is empty and the second is not, so the second is the one that stays. -/
theorem renders_of_first_empty (empty : g.text q = []) (filled : g.text u ≠ []) :
    Renders (Moved C q u b) g.outline header old new g g' := by
  obtain ⟨x, y, z, n, n', known, known₂, known', ⟨body, body₂, body'⟩, ends, ends₂, ends',
    behind⟩ :=
    split.blocks
  have dead : ¬ g.Stays q := fun stays => split.stays_first.1 stays empty
  have stays : g.Stays u := split.stays_second.2 filled
  have stays' : g'.Stays b := split.stays_both.2 (.inr filled)
  have low := split.elidable.tidy.inner known body
  have follows : Follows g g' (Moved C q u b) (Extended C u b) := by
    intro t t' same
    obtain same | ⟨rfl, rfl⟩ := same
    · by_cases here : t = q
      · subst here
        obtain rfl := split.unique.right same split.pair
        exact .inr ⟨u, split.through_first empty, .inl (.inr ⟨rfl, rfl⟩)⟩
      · exact split.follow same here (fun _ _ => .inl) fun _ => .inl ⟨same, here⟩
    · exact .inl ⟨stays, stays', .inr ⟨rfl, rfl⟩⟩
  -- All other blocks keep their counterparts; `q` is looked through and `u` stands for `b`.
  refine ⟨?_, id, ?_, fun h h' same => ?_⟩
  · apply Outline.Mirrors.of_settles split.moved_unique _ _ _ _ _ _ split.elidable.proper.total
      split.elidable'.proper
    · exact .inl ⟨split.entry, by simp only [Graph.entry]; omega⟩
    · exact .inl ⟨split.exit, by simp only [Graph.exit]; omega⟩
    · intro h h' same
      obtain ⟨same, here⟩ | ⟨rfl, rfl⟩ := same
      · exact split.stays_iff same here
      · exact iff_of_true stays stays'
    · intro h filled
      by_cases second : h = u
      · exact ⟨b, .inr ⟨second, rfl⟩⟩
      · obtain ⟨h', same⟩ := split.partner h filled second
        refine ⟨h', .inl ⟨same, ?_⟩⟩
        rintro rfl
        exact dead filled
    · intro h' filled
      obtain ⟨h, same⟩ := split.partner' h' filled
      by_cases here : h = q
      · subst here
        exact ⟨u, .inr ⟨rfl, split.unique.right same split.pair⟩⟩
      · exact ⟨h, .inl ⟨same, here⟩⟩
    · intro h h' e same settles
      obtain ⟨same, here⟩ | ⟨rfl, rfl⟩ := same
      · exact split.settles follows (fun _ _ => .inl) same here settles
      · exact follows.settles ⟨y, z, _, _, known₂, known', ends₂, ends', .goes (.inl behind)⟩
          stays' settles
  · obtain ⟨l, related, same⟩ := split.roll_second
    exact ⟨l, related, fun p shown =>
      same p (Bool.eq_false_iff.2 fun holds => dead (shown q holds))⟩
  · obtain ⟨same, here⟩ | ⟨rfl, rfl⟩ := same
    · exact split.text_eq same here rfl fun _ => id
    · left
      show g.text h = g'.text h'
      rw [split.joint, empty, List.nil_append]

/-! ### Neither of the two is empty -/

theorem joined (filled : g.text q ≠ []) (filled' : g.text u ≠ []) : g.outline.Joined q u := by
  obtain ⟨x, y, z, n, n', known, known₂, -, ⟨body, body₂, -⟩, ends, -⟩ := split.blocks
  have stays := split.stays_second.2 filled'
  have leads : ∀ t, g.Flow q t ↔ t = u := by
    intro t
    have member : t ∈ x.successors ↔ t = u := by simp [ends.mem_successors, Ending.targets]
    simp [Flow, known, member]
  have low := split.elidable.tidy.inner known body
  have low' := split.elidable.tidy.inner known₂ body₂
  -- The first block feeds the second only, and nothing else feeds the second.
  refine ⟨?_, fun v => ?_, ?_, split.second_ne, fun w feeds => ?_⟩
  · simp only [Graph.entry]
    omega
  · rw [split.elidable.feeds_iff]
    constructor
    · rintro ⟨-, t, flow, skips, -⟩
      obtain rfl := (leads t).1 flow
      exact (skips.of_stays stays).symm
    · rintro rfl
      exact ⟨split.stays_first.2 filled, v, (leads v).2 rfl, .of_stays stays⟩
  · simp only [Graph.exit]
    omega
  · obtain ⟨-, t, flow, skips, -⟩ := split.elidable.feeds_iff.1 feeds
    obtain rfl | ⟨k, y', known', -, empty, member⟩ := skips.last
    · exact split.only w flow
    · -- The last block on the way would be the first of the two, which is not empty.
      obtain rfl := split.only k ⟨y', known', member⟩
      exact absurd ((text_of_live known').trans empty) filled

theorem renders_of_filled (filled : g.text q ≠ []) (filled' : g.text u ≠ []) :
    Renders C (g.outline.contract q u) header old new g g' := by
  obtain ⟨x, y, z, n, n', known, known₂, known', -, ends, ends₂, ends', behind⟩ := split.blocks
  have joined := split.joined filled filled'
  have contracts := joined.contracts
  have stays' : g'.Stays b := split.stays_both.2 (.inl filled)
  have apart : ∀ {h h'}, C h h' → h ≠ u := by
    rintro h h' same rfl
    exact split.lone h' same
  have follows : Follows g g' C C := by
    intro t t' same
    by_cases here : t = q
    · subst here
      obtain rfl := split.unique.right same split.pair
      exact .inl ⟨joined.stays, stays', same⟩
    · exact split.follow same here (fun _ _ => id) fun _ => same
  refine ⟨?_, (contracts.shown_iff split.elidable.proper).2, ?_, fun h h' same => ?_⟩
  · apply Outline.Mirrors.of_settles split.unique split.entry split.exit _ _ split.partner' _ _
      split.elidable'.proper
    · intro h h' same
      rw [contracts.stays, and_iff_left (apart same)]
      by_cases here : h = q
      · subst here
        obtain rfl := split.unique.right same split.pair
        exact iff_of_true joined.stays stays'
      · exact split.stays_iff same here
    · intro h filled
      exact split.partner h filled.1 filled.2
    · intro h h' e same settles
      by_cases here : h = q
      · subst here
        obtain rfl := split.unique.right same split.pair
        exact follows.settles ⟨y, z, _, _, known₂, known', ends₂, ends', .goes behind⟩ stays'
          ((contracts.taken e).1 settles)
      · have settles : g.Settles h e := (contracts.kept h e here (apart same)).1 settles
        exact split.settles follows (fun _ _ => id) same here settles
    · intro h stays other
      by_cases here : h = q
      · subst here
        obtain ⟨e, settles⟩ := split.elidable.settles_total (split.stays_second.2 filled')
          (split.elidable.tidy.ne_exit known₂ ends₂)
        exact ⟨e, (contracts.taken e).2 settles⟩
      · obtain ⟨e, settles⟩ := split.elidable.settles_total stays.1 other
        exact ⟨e, (contracts.kept h e here stays.2).2 settles⟩
  -- The second block is not printed any more, and the others stand in the same order.
  · obtain ⟨l, related, same⟩ := split.roll_first
    exact ⟨l, related, fun p shown =>
      same p (Bool.eq_false_iff.2 fun holds => (shown u holds).2 rfl)⟩
  · by_cases here : h = q
    · subst here
      obtain rfl := split.unique.right same split.pair
      left
      rw [contracts.linesTaken]
      exact split.joint.symm
    · exact split.text_eq same here (contracts.linesKept h here (apart same)) fun e settles =>
        (contracts.kept h e here (apart same)).2 settles

/-- However the fragments are spread over the two blocks, nothing is seen of the split. -/
theorem renders : ∃ R O, Renders R O header old new g g' := by
  by_cases second : g.text u = []
  · exact ⟨_, _, split.renders_of_second_empty second⟩
  · by_cases first : g.text q = []
    · exact ⟨_, _, split.renders_of_first_empty first second⟩
    · exact ⟨_, _, split.renders_of_filled first second⟩

end Split

end Graph

end Flowgraph
