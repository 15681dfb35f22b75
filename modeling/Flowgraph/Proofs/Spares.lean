import Flowgraph.Proofs.Regular

/-!
# What growing leaves alone

A graph grows at one block.  All others stay as they are, apart from edges that enter the block in
front of which the graph grows, or the exit.
-/

namespace Flowgraph

namespace Graph

variable {g g' g'' : Graph} {a b c h k : Nat} {l l' near near' : List Nat}

theorem block?_withEdge_of_ne (source : h ≠ a) (target : h ≠ b) :
    (g.withEdge a b).block? h = g.block? h := by
  simp [withEdge, block?_revise, Ne.symm source, Ne.symm target]

theorem block?_withoutEdge_of_ne (source : h ≠ a) (target : h ≠ b) :
    (g.withoutEdge a b).block? h = g.block? h := by
  simp [withoutEdge, block?_revise, Ne.symm source, Ne.symm target]

theorem block?_spliced_of_ne (old : h < g.arena.size) (source : h ≠ c) (target : h ≠ k) :
    (g.spliced c k).block? h = g.block? h := by
  have new : h ≠ g.arena.size := Nat.ne_of_lt old
  rw [spliced, block?_withEdge_of_ne new target, block?_withEdge_of_ne source new,
    block?_withoutEdge_of_ne source target, block?_withBlock, if_neg new]

theorem block?_cut_of_ne (source : h ≠ c) (targets : h ∉ l) :
    (g.cut c l).block? h = g.block? h := by
  induction l generalizing g with
  | nil => rfl
  | cons k rest ih =>
    obtain ⟨first, later⟩ := not_or.1 (mt List.mem_cons.2 targets)
    rw [cut_cons, ih later, block?_withoutEdge_of_ne source first]

theorem block?_sealing_of_ne (source : h ≠ c) (target : h ≠ exit) (targets : h ∉ l) :
    (g.sealing c l).block? h = g.block? h := by
  rw [sealing, block?_revise, if_neg (Ne.symm source), block?_withEdge_of_ne source target,
    block?_cut_of_ne source targets]

/-- From `g` to `g'` every block of `g` stays as it is, but those of `l` may change, and those of
`near` may be entered from elsewhere. -/
structure Spares (l near : List Nat) (g g' : Graph) : Prop where
  size : g.arena.size ≤ g'.arena.size
  core : ∀ h, h < g.arena.size → h ∉ l → g'.core? h = g.core? h
  block : ∀ h, h < g.arena.size → h ∉ l → h ∉ near → g'.block? h = g.block? h

namespace Spares

theorem refl (g : Graph) : Spares l near g g :=
  ⟨Nat.le_refl _, fun _ _ _ => rfl, fun _ _ _ _ => rfl⟩

theorem trans (first : Spares l near g g') (second : Spares l' near' g' g'')
    (inside : ∀ h ∈ l', h < g.arena.size → h ∈ l)
    (inside' : ∀ h ∈ near', h < g.arena.size → h ∈ l ∨ h ∈ near) : Spares l near g g'' where
  size := Nat.le_trans first.size second.size
  core h old other := by
    have old' := Nat.lt_of_lt_of_le old first.size
    rw [second.core h old' fun member => other (inside h member old), first.core h old other]
  block h old other away := by
    have old' := Nat.lt_of_lt_of_le old first.size
    have near : h ∉ near' := fun member => (inside' h member old).elim other away
    rw [second.block h old' (fun member => other (inside h member old)) near,
      first.block h old other away]

/-- A block that may change may also be entered. -/
theorem widen (spares : Spares l near g g') (inside : ∀ h ∈ l, h ∈ l')
    (inside' : ∀ h ∈ near, h ∈ l' ∨ h ∈ near') : Spares l' near' g g' where
  size := spares.size
  core h old other := spares.core h old fun member => other (inside h member)
  block h old other away := spares.block h old (fun member => other (inside h member))
    fun member => (inside' h member).elim other away

theorem lookup (spares : Spares l near g g') {x : Block} (known : g.core? h = some x)
    (other : h ∉ l) : g'.core? h = some x :=
  (spares.core h (core?_isSome_iff.1 (by simp [known])) other).trans known

end Spares

theorem spares_revise {f : Block → Block} (core : ∀ x, (f x).core = f x.core) :
    Spares [h] near g (g.revise h f) where
  size := by simp
  core j _ other := by
    rw [core?_revise core, if_neg fun eq => other (by simp [eq])]
  block j _ other _ := by
    rw [block?_revise, if_neg fun eq => other (by simp [eq])]

theorem spares_spliced (hc : c < g.arena.size) : Spares [c] [k] g (g.spliced c k) where
  size := by simp
  core j old other := by
    rw [core?_spliced hc, if_neg (Nat.ne_of_lt old), if_neg fun eq => other (by simp [eq])]
  block j old other away :=
    block?_spliced_of_ne old (fun eq => other (by simp [eq])) fun eq => away (by simp [eq])

theorem spares_numbered : Spares [h] near g (g.numbered h) where
  size := by simp
  core j _ other := by
    rw [core?_numbered, if_neg fun eq => other (by simp [eq])]
  block j _ other _ := by
    rw [numbered, block?_revise, if_neg fun eq => other (by simp [eq])]
    rfl

theorem spares_sealing : Spares [c] (exit :: l) g (g.sealing c l) where
  size := by simp
  core j _ other := by
    rw [core?_sealing, if_neg fun eq => other (by simp [eq])]
  block j _ other away := by
    obtain ⟨target, targets⟩ := not_or.1 (mt List.mem_cons.2 away)
    exact block?_sealing_of_ne (fun eq => other (by simp [eq])) target targets

end Graph

end Flowgraph
