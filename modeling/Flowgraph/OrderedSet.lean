/-!
# Insertion-ordered finite sets

A set that remembers the order in which its members were put in.  Putting in a
member that is already there changes nothing; a member that was taken out and is
put in again goes to the end.

The view of a set is `toList`.  `toList_insert`, `toList_erase` and `mem_union`
say what each operation does to it.
-/

namespace Flowgraph

/-- A finite set, listed in the order in which its members were put in. -/
structure OrderedSet (α : Type) where
  /-- The members, the one put in first at the head. -/
  toList : List α
  /-- No member is listed twice. -/
  nodup : toList.Nodup
  deriving DecidableEq

namespace OrderedSet

variable {α : Type}

/-- The set without members. -/
def empty : OrderedSet α := ⟨[], List.nodup_nil⟩

/-- The set with one member. -/
def singleton (a : α) : OrderedSet α := ⟨[a], by simp⟩

instance : EmptyCollection (OrderedSet α) := ⟨empty⟩

instance : Inhabited (OrderedSet α) := ⟨∅⟩

instance : Membership α (OrderedSet α) := ⟨fun s a => a ∈ s.toList⟩

instance [DecidableEq α] (a : α) (s : OrderedSet α) : Decidable (a ∈ s) :=
  inferInstanceAs (Decidable (a ∈ s.toList))

/-- How many members the set has. -/
def size (s : OrderedSet α) : Nat := s.toList.length

/-- The member that has been in the set for the longest time. -/
def first? (s : OrderedSet α) : Option α := s.toList.head?

variable [DecidableEq α]

/-- Put `a` in, at the end unless it is there already. -/
def insert (s : OrderedSet α) (a : α) : OrderedSet α :=
  if h : a ∈ s.toList then s
  else ⟨s.toList ++ [a], List.nodup_append.2
    ⟨s.nodup, by simp, fun _ hb _ hc e => h (List.eq_of_mem_singleton hc ▸ e ▸ hb)⟩⟩

/-- Take `a` out. -/
def erase (s : OrderedSet α) (a : α) : OrderedSet α :=
  ⟨s.toList.erase a, s.nodup.erase a⟩

/-- Put in the members of `t`, one after the other. -/
def union (s t : OrderedSet α) : OrderedSet α := t.toList.foldl insert s

/-! ## The view of each operation -/

omit [DecidableEq α] in
theorem mem_iff {a : α} {s : OrderedSet α} : a ∈ s ↔ a ∈ s.toList := Iff.rfl

omit [DecidableEq α] in
@[simp] theorem toList_empty : (∅ : OrderedSet α).toList = [] := rfl

omit [DecidableEq α] in
@[simp] theorem toList_singleton (a : α) : (singleton a).toList = [a] := rfl

omit [DecidableEq α] in
@[ext] theorem ext {s t : OrderedSet α} (h : s.toList = t.toList) : s = t := by
  cases s; cases t; cases h; rfl

theorem toList_insert (s : OrderedSet α) (a : α) :
    (s.insert a).toList = if a ∈ s then s.toList else s.toList ++ [a] := by
  unfold insert
  split <;> simp_all [mem_iff]

@[simp] theorem toList_erase (s : OrderedSet α) (a : α) :
    (s.erase a).toList = s.toList.erase a := rfl

@[simp] theorem mem_insert {s : OrderedSet α} {a b : α} :
    b ∈ s.insert a ↔ b ∈ s ∨ b = a := by
  rw [mem_iff, toList_insert]
  split
  · exact ⟨Or.inl, fun h => h.elim id fun e => e ▸ ‹_›⟩
  · simp [mem_iff]

@[simp] theorem mem_erase {s : OrderedSet α} {a b : α} :
    b ∈ s.erase a ↔ b ≠ a ∧ b ∈ s := by
  simp [mem_iff, s.nodup.mem_erase_iff]

@[simp] theorem mem_union {s t : OrderedSet α} {b : α} :
    b ∈ s.union t ↔ b ∈ s ∨ b ∈ t := by
  have fold : ∀ (l : List α) (u : OrderedSet α),
      b ∈ l.foldl insert u ↔ b ∈ u ∨ b ∈ l := by
    intro l
    induction l with
    | nil => simp
    | cons a l ih => intro u; simp [ih, or_assoc]
  exact fold t.toList s

omit [DecidableEq α] in
@[simp] theorem not_mem_empty (a : α) : a ∉ (∅ : OrderedSet α) := List.not_mem_nil

omit [DecidableEq α] in
@[simp] theorem mem_singleton {a b : α} : b ∈ singleton a ↔ b = a := List.mem_singleton

theorem insert_of_mem {s : OrderedSet α} {a : α} (h : a ∈ s) : s.insert a = s :=
  ext (by simp [toList_insert, h])

theorem erase_of_not_mem {s : OrderedSet α} {a : α} (h : a ∉ s) : s.erase a = s :=
  ext (List.erase_of_not_mem h)

@[simp] theorem insert_empty (a : α) : (∅ : OrderedSet α).insert a = singleton a :=
  ext (by simp [toList_insert])

@[simp] theorem erase_singleton_self (a : α) : (singleton a).erase a = ∅ :=
  ext (by simp)

theorem erase_singleton_of_ne {a b : α} (h : b ≠ a) : (singleton a).erase b = singleton a :=
  erase_of_not_mem (by simpa using h)

/-- Putting new members in, one after the other, lists them at the end. -/
theorem toList_foldl_insert {l : List α} :
    ∀ {s : OrderedSet α}, (s.toList ++ l).Nodup → (l.foldl insert s).toList = s.toList ++ l := by
  induction l with
  | nil => simp
  | cons a rest ih =>
    intro s nodup
    have fresh : a ∉ s := by
      rw [mem_iff]
      simp only [List.nodup_append] at nodup
      exact fun member => nodup.2.2 a member a List.mem_cons_self rfl
    have longer : (s.insert a).toList = s.toList ++ [a] := by rw [toList_insert, if_neg fresh]
    rw [List.foldl_cons, ih (by simpa [longer] using nodup), longer]
    simp

theorem mem_foldl_erase {l : List α} {a : α} :
    ∀ {s : OrderedSet α}, a ∈ l.foldl erase s ↔ a ∈ s ∧ a ∉ l := by
  induction l with
  | nil => simp
  | cons b rest ih =>
    intro s
    rw [List.foldl_cons, ih, mem_erase, List.mem_cons, not_or]
    exact ⟨fun ⟨⟨other, member⟩, away⟩ => ⟨member, other, away⟩,
      fun ⟨member, other, away⟩ => ⟨⟨other, member⟩, away⟩⟩

omit [DecidableEq α] in
theorem eq_empty {s : OrderedSet α} (none : ∀ a, a ∉ s) : s = ∅ :=
  ext (List.eq_nil_iff_forall_not_mem.2 none)

omit [DecidableEq α] in
theorem eq_singleton {s : OrderedSet α} {a : α} (only : ∀ b, b ∈ s ↔ b = a) : s = singleton a := by
  apply ext
  apply List.perm_singleton.1
  refine (List.perm_ext_iff_of_nodup s.nodup (by simp)).2 fun b => ?_
  rw [List.mem_singleton]
  exact only b

/-- Taking out all the members. -/
theorem foldl_erase_self (s : OrderedSet α) : s.toList.foldl erase s = ∅ := by
  apply eq_empty
  intro a member
  obtain ⟨inside, away⟩ := mem_foldl_erase.1 member
  exact away inside

theorem foldl_insert_empty (s : OrderedSet α) : s.toList.foldl insert ∅ = s :=
  ext (by rw [toList_foldl_insert] <;> simp [s.nodup])

/-- Taking out the older of two members. -/
theorem erase_insert_singleton {a b : α} (h : a ≠ b) :
    ((singleton a).insert b).erase a = singleton b :=
  ext (by simp [toList_insert, Ne.symm h])

end OrderedSet

end Flowgraph
