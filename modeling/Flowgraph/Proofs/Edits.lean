import Flowgraph.Fault

/-!
# Runs of edits

How an edit made of parts runs when its parts do, and what a walk along a list keeps when
every step keeps it.  A step is told what is still to come, so an invariant may speak of the
elements that were not visited yet.
-/

namespace Flowgraph

/-- A list of things that can fail ends well if each of them does. -/
theorem mapM_ok {α β ε : Type} {f : α → Except ε β} {f' : α → β} {l : List α}
    (each : ∀ a ∈ l, f a = .ok (f' a)) : l.mapM f = .ok (l.map f') := by
  induction l with
  | nil => rfl
  | cons a rest ih =>
    rw [List.mapM_cons, each a List.mem_cons_self,
      ih fun b member => each b (List.mem_cons_of_mem a member)]
    rfl

theorem exists_mapM {α β ε : Type} {f : α → Except ε β} {l : List α}
    (each : ∀ a ∈ l, ∃ b, f a = .ok b) : ∃ bs, l.mapM f = .ok bs := by
  induction l with
  | nil => exact ⟨[], rfl⟩
  | cons a rest ih =>
    obtain ⟨b, run⟩ := each a List.mem_cons_self
    obtain ⟨bs, runs⟩ := ih fun c member => each c (List.mem_cons_of_mem a member)
    exact ⟨b :: bs, by rw [List.mapM_cons, run, runs]; rfl⟩

namespace Edit

variable {σ α β : Type}

/-- The state that an edit leaves behind, whether it ends well or not. -/
def final (x : Edit σ α) (s : σ) : σ :=
  match x s with
  | .ok _ s' => s'
  | .error _ s' => s'

theorem final_of_ok {x : Edit σ α} {s s' : σ} {a : α} (h : x s = .ok a s') : final x s = s' := by
  rw [final, h]

theorem final_of_error {x : Edit σ α} {s s' : σ} {fault : Fault} (h : x s = .error fault s') :
    final x s = s' := by
  rw [final, h]

theorem final_discard (x : Edit σ α) (s : σ) : final (discard x : Edit σ Unit) s = final x s := by
  simp only [final, discard, Functor.mapConst, Function.comp_def, EStateM.map]
  cases x s <;> rfl

theorem bind_ok {x : Edit σ α} {f : α → Edit σ β} {s s' : σ} {a : α} (h : x s = .ok a s') :
    (x >>= f) s = f a s' := by
  simp only [bind, EStateM.bind, h]

theorem bind_error {x : Edit σ α} {f : α → Edit σ β} {s s' : σ} {fault : Fault}
    (h : x s = .error fault s') : (x >>= f) s = .error fault s' := by
  simp only [bind, EStateM.bind, h]

theorem final_bind_ok {x : Edit σ α} {f : α → Edit σ β} {s s' : σ} {a : α} (h : x s = .ok a s') :
    final (x >>= f) s = final (f a) s' := by
  rw [final, final, bind_ok h]

theorem final_bind_error {x : Edit σ α} {f : α → Edit σ β} {s s' : σ} {fault : Fault}
    (h : x s = .error fault s') : final (x >>= f) s = s' :=
  final_of_error (bind_error h)

theorem discard_ok {x : Edit σ α} {s s' : σ} {a : α} (h : x s = .ok a s') :
    (discard x : Edit σ Unit) s = .ok () s' := by
  simp [discard, Functor.mapConst, EStateM.map, h]

theorem discard_error {x : Edit σ α} {s s' : σ} {fault : Fault} (h : x s = .error fault s') :
    (discard x : Edit σ Unit) s = .error fault s' := by
  simp [discard, Functor.mapConst, EStateM.map, h]

theorem forM_cons_ok {f : α → Edit σ Unit} {a : α} {rest : List α} {s s' : σ}
    (h : f a s = .ok () s') : (a :: rest).forM f s = rest.forM f s' :=
  bind_ok h

theorem forM_map (f : β → Edit σ Unit) (k : α → β) (l : List α) :
    (l.map k).forM f = l.forM fun a => f (k a) := by
  induction l with
  | nil => rfl
  | cons a rest ih =>
    show (f (k a) >>= fun _ => (rest.map k).forM f) = _
    rw [ih]
    rfl

theorem get_run (s : σ) : (get : Edit σ σ) s = .ok s s := rfl

theorem modify_run (f : σ → σ) (s : σ) : (modify f : Edit σ Unit) s = .ok () (f s) := rfl

theorem pure_run (a : α) (s : σ) : (pure a : Edit σ α) s = .ok a s := rfl

/-- A walk along a list ends well if every step does and keeps the invariant. -/
theorem forM_run {f : α → Edit σ Unit} {motive : List α → σ → Prop}
    (step : ∀ a rest s, motive (a :: rest) s → ∃ s', f a s = .ok () s' ∧ motive rest s') :
    ∀ {l : List α} {s : σ}, motive l s → ∃ s', l.forM f s = .ok () s' ∧ motive [] s' := by
  intro l
  induction l with
  | nil => intro s start; exact ⟨s, rfl, start⟩
  | cons a rest ih =>
    intro s start
    obtain ⟨s₁, ran, kept⟩ := step a rest s start
    obtain ⟨s₂, ranRest, done⟩ := ih kept
    exact ⟨s₂, (bind_ok ran).trans ranRest, done⟩

/-- The same for a walk that carries a value along. -/
theorem foldlM_run {f : β → α → Edit σ β} {motive : List α → β → σ → Prop}
    (step : ∀ a rest b s, motive (a :: rest) b s →
      ∃ b' s', f b a s = .ok b' s' ∧ motive rest b' s') :
    ∀ {l : List α} {b : β} {s : σ}, motive l b s →
      ∃ b' s', l.foldlM f b s = .ok b' s' ∧ motive [] b' s' := by
  intro l
  induction l with
  | nil => intro b s start; exact ⟨b, s, rfl, start⟩
  | cons a rest ih =>
    intro b s start
    obtain ⟨b₁, s₁, ran, kept⟩ := step a rest b s start
    obtain ⟨b₂, s₂, ranRest, done⟩ := ih kept
    exact ⟨b₂, s₂, (bind_ok ran).trans ranRest, done⟩

end Edit

end Flowgraph
