import Flowgraph.Proofs.Listing
import Mathlib.Data.List.Nodup

/-!
# Labels are unambiguous

A label is the name of the function, an underscore, and a mark that holds no underscore.  So a label
tells both, whatever the name is, and the labels of a program are distinct if the names of its
functions are.
-/

namespace Flowgraph

/-- What stands behind the last `c` is behind it on both sides. -/
theorem behind_last_inj {α : Type} {c : α} {a b s t : List α} (hs : c ∉ s) (ht : c ∉ t)
    (eq : a ++ c :: s = b ++ c :: t) : a = b ∧ s = t := by
  obtain ⟨more, rfl, rest⟩ | ⟨more, rfl, rest⟩ := List.append_eq_append_iff.1 eq
  all_goals cases more with
  | nil => simpa [eq_comm] using rest
  | cons d more =>
    rw [List.cons_append, List.cons.injEq] at rest
    simp [rest.2] at hs ht

/-- What tells the blocks of one function apart in print. -/
inductive Mark where
  | entry
  /-- The numbered block with this display number. -/
  | block (i : Nat)
  | exit
  deriving DecidableEq, Repr

namespace Mark

def text : Mark → String
  | entry => "entry"
  | block i => s!"B{i}"
  | exit => "exit"

/-- The label of the block of a function that has this mark. -/
def label (name : String) (m : Mark) : String := name ++ "_" ++ m.text

/-- The marks of `k` numbered blocks and the two ends, in the order in which they are printed. -/
def printed (k : Nat) : List Mark := entry :: (List.range k).map block ++ [exit]

/-- The same marks in the order in which neighbours are listed. -/
def listed (k : Nat) : List Mark := (List.range k).map block ++ [entry, exit]

theorem toList_text_block (i : Nat) : (block i).text.toList = 'B' :: Nat.toDigits 10 i := by
  have letter : (toString "B").toList = ['B'] := rfl
  simp [text, letter, Nat.repr_eq_ofList_toDigits]

theorem underscore_not_in_text (m : Mark) : '_' ∉ m.text.toList := by
  cases m with
  | entry | exit => decide
  | block i =>
    rw [toList_text_block, List.mem_cons]
    intro member
    obtain first | digit := member
    · exact absurd first (by decide)
    · exact Nat.underscore_not_in_toDigits digit

theorem text_injective {m m' : Mark} (same : m.text = m'.text) : m = m' := by
  have lists := congrArg String.toList same
  cases m with
  | block i =>
    rw [toList_text_block] at lists
    cases m' with
    | block j =>
      rw [toList_text_block, List.cons.injEq] at lists
      have read := congrArg (Nat.ofDigitChars 10 · 0) lists.2
      simp only [Nat.ofDigitChars_ten_toDigits] at read
      rw [read]
    | entry | exit => simp [text] at lists
  | entry | exit =>
    cases m' with
    | block j =>
      rw [toList_text_block] at lists
      simp [text] at lists
    | entry | exit => first | rfl | (simp [text] at same)

/-- A label tells the name of the function and the mark of the block. -/
theorem label_inj {name name' : String} {m m' : Mark} :
    label name m = label name' m' ↔ name = name' ∧ m = m' := by
  constructor
  · intro same
    have lists := congrArg String.toList same
    simp only [label, String.toList_append, List.append_assoc] at lists
    have parts := behind_last_inj m.underscore_not_in_text m'.underscore_not_in_text lists
    exact ⟨String.toList_inj.1 parts.1, text_injective (String.toList_inj.1 parts.2)⟩
  · intro same
    rw [same.1, same.2]

theorem label_injective (name : String) : Function.Injective (label name) :=
  fun _ _ same => (label_inj.1 same).2

theorem listed_nodup (k : Nat) : (listed k).Nodup := by
  refine List.nodup_append.2 ⟨?_, by decide, ?_⟩
  · exact List.nodup_range.map fun i j same => Mark.block.inj same
  · intro m left m' right same
    obtain ⟨i, -, rfl⟩ := List.mem_map.1 left
    simp [← same] at right

end Mark

namespace Graph

variable {g : Graph} {h k i : Nat} {x y : Block} {hs : List Nat}

/-- The mark of a live block. -/
def mark (g : Graph) (h : Nat) : Mark :=
  match BlockKind.ofHandle h with
  | .entry => .entry
  | .exit => .exit
  | .body => .block ((g.numbering.get? h).getD 0)

/-- The label of a live block. -/
def label (g : Graph) (h : Nat) : String := (g.mark h).label g.name

/-- The labels of some blocks, in the order in which neighbours are listed. -/
def listed (g : Graph) (hs : List Nat) : List String := (g.order.filter (· ∈ hs)).map g.label

namespace Canonical

variable (canonical : g.Canonical)

include canonical

/-- Every live block has a label. -/
theorem labelOf?_eq (live : g.Live h x) : g.labelOf? h x = some (g.label h) := by
  have kind := canonical.tidy.kind_eq live
  unfold labelOf? label mark Mark.label
  rw [kind]
  cases eq : BlockKind.ofHandle h with
  | entry | exit => simp [Mark.text, String.append_assoc]
  | body =>
    obtain ⟨n, id⟩ := Block.id_of_alive live.2 (kind.trans eq)
    have shown := (canonical.wellFormed.displayed h).2 ⟨x, live, kind.trans eq⟩
    obtain ⟨i, number⟩ := Option.isSome_iff_exists.1 shown
    have letter : toString "_B" = "_" ++ toString "B" := rfl
    simp [id, number, Mark.text, letter, String.append_assoc]

theorem title?_eq (live : g.Live h x) : g.title? h = some (g.label h) :=
  live.title.trans (canonical.labelOf?_eq live)

/-- The numbered blocks are marked by their places on the roll. -/
theorem marks_roll : g.roll.map g.mark = (List.range g.numbering.size).map .block := by
  have size : g.numbering.size = g.roll.length := by
    rw [canonical.numbering, Numbering.size_ofRoll]
  apply List.ext_getElem
  · simp [size]
  · intro i low _
    rw [List.length_map] at low
    obtain ⟨x, live, body⟩ := canonical.tidy.live_of_mem_roll (List.getElem_mem low)
    have shown := canonical.shown_iff.2 (List.getElem?_eq_getElem low)
    have kind := (canonical.tidy.kind_eq live).symm.trans body
    simp [mark, kind, shown]

theorem marks_order : g.order.map g.mark = Mark.listed g.numbering.size := by
  rw [order, List.map_append, canonical.marks_roll]
  rfl

/-- No two live blocks have the same label. -/
theorem label_inj (live : g.Live h x) (live' : g.Live k y) : g.label h = g.label k ↔ h = k := by
  have nodup : (g.order.map g.mark).Nodup := canonical.marks_order ▸ Mark.listed_nodup _
  have injective := List.inj_on_of_nodup_map nodup
  constructor
  · intro same
    exact injective (canonical.tidy.mem_order.2 ⟨x, live⟩) (canonical.tidy.mem_order.2 ⟨y, live'⟩)
      (Mark.label_inj.1 same).2
  · exact congrArg g.label

/-- The labels that are printed for a list of neighbours. -/
theorem sortedLabels_eq (nodup : hs.Nodup) (alive : ∀ h ∈ hs, ∃ x, g.Live h x) :
    g.sortedLabels hs = .ok (g.listed hs) := by
  rw [canonical.tidy.sortedLabels_ok nodup alive, listed, ← List.filterMap_eq_map]
  congr 1
  refine List.filterMap_congr fun h member => ?_
  obtain ⟨x, live⟩ := canonical.tidy.mem_order.1 (List.mem_filter.1 member).1
  exact canonical.title?_eq live

/-- Numbered neighbours stand first, by number, then the entry, then the exit. -/
theorem listed_sublist :
    (g.listed hs).Sublist ((Mark.listed g.numbering.size).map (Mark.label g.name)) := by
  rw [← canonical.marks_order, List.map_map]
  exact List.filter_sublist.map g.label

theorem listed_nodup : (g.listed hs).Nodup :=
  canonical.listed_sublist.nodup ((Mark.listed_nodup _).map (Mark.label_injective g.name))

/-- The list of the neighbours names just these. -/
theorem listed_perm (nodup : hs.Nodup) (alive : ∀ h ∈ hs, ∃ x, g.Live h x) :
    (g.listed hs).Perm (hs.map g.label) := by
  refine List.Perm.map g.label ?_
  refine (List.perm_ext_iff_of_nodup (canonical.tidy.order_nodup.filter _) nodup).2 fun h => ?_
  rw [List.mem_filter, canonical.tidy.mem_order, decide_eq_true_eq]
  exact and_iff_right_of_imp (alive h)

theorem targetLabel?_eq {target : Option Nat} (alive : ∀ h, target = some h → ∃ x, g.Live h x) :
    g.targetLabel? target = .ok (target.map g.label) := by
  cases target with
  | none => rfl
  | some h =>
    obtain ⟨x, live⟩ := alive h rfl
    rw [targetLabel?, label?, find_eq_ok.2 live.1]
    exact congrArg Except.ok (canonical.labelOf?_eq live)

end Canonical

end Graph

end Flowgraph
