import Flowgraph.Syntax.Interchange

/-!
# The statements of a syntax tree

Where statements stand in a syntax tree that is given as JSON, and in which order: a node comes before
the statements in it, and these come in source order.  Which fields of a node hold statements depends
on its kind; a node of a kind that functions are not made of holds none that count.
-/

namespace Flowgraph

namespace Json

variable {j v : Json} {key : String}

/-! ## Depth -/

theorem depth_le_itemsDepth {items : List Json} (member : v ∈ items) :
    v.depth ≤ itemsDepth items := by
  induction items with
  | nil => cases member
  | cons item items ih =>
    rw [itemsDepth]
    obtain rfl | later := List.mem_cons.1 member
    · exact Nat.le_max_left ..
    · exact Nat.le_trans (ih later) (Nat.le_max_right ..)

theorem depth_le_fieldsDepth {fields : List (String × Json)} (found : fields.lookup key = some v) :
    v.depth ≤ fieldsDepth fields := by
  induction fields with
  | nil => cases found
  | cons field fields ih =>
    obtain ⟨name, value⟩ := field
    rw [fieldsDepth]
    rw [List.lookup_cons] at found
    split at found
    · cases found
      exact Nat.le_max_left ..
    · exact Nat.le_trans (ih found) (Nat.le_max_right ..)

theorem depth_field? (found : j.field? key = some v) : v.depth < j.depth := by
  cases j with
  | object fields =>
    rw [depth]
    exact Nat.lt_succ_of_le (depth_le_fieldsDepth found)
  | _ => cases found

theorem depth_node? (found : j.node? key = some v) : v.depth < j.depth := by
  unfold node? at found
  split at found
  · cases found
  · exact depth_field? found

theorem depth_of_mem_nodes (member : v ∈ j.nodes key) : v.depth < j.depth := by
  unfold nodes at member
  cases found : j.field? key with
  | none => simp [found] at member
  | some list =>
    have outer := depth_field? found
    cases list with
    | array items =>
      have inner : v ∈ items := by simpa [found, array?] using member
      have within := depth_le_itemsDepth inner
      rw [depth] at outer
      omega
    | _ => simp [found, array?] at member

/-! ## Nodes -/

/-- The node in a field that every node of the kind has. -/
def child (j : Json) (key : String) : Json := (j.node? key).getD .null

theorem depth_child (named : j.kind ≠ "") : (j.child key).depth < j.depth := by
  unfold child
  cases found : j.node? key with
  | some v => exact depth_node? found
  | none =>
    -- Only an object has a kind.
    cases j with
    | object fields => simp [depth]
    | _ => exact absurd rfl named

/-- The kinds of statement without control flow. -/
def plainKinds : List String :=
  ["VariableDeclaration", "ExpressionStatement", "EmptyStatement", "DebuggerStatement"]

/-- The kinds of statement that functions are made of. -/
def supportedKinds : List String :=
  plainKinds ++ ["BlockStatement", "IfStatement", "WhileStatement", "ForStatement", "ReturnStatement"]

/-- The statements that stand directly in a statement, in source order. -/
def inner (j : Json) : List Json :=
  match j.kind with
  | "BlockStatement" => j.nodes "body"
  | "IfStatement" => j.child "consequent" :: (j.node? "alternate").toList
  | "WhileStatement" | "ForStatement" => [j.child "body"]
  | _ => []

/-- What a statement can be. -/
inductive Shape (j : Json) : Prop where
  | block (kind : j.kind = "BlockStatement")
  | plain (kind : j.kind ∈ plainKinds)
  | branch (kind : j.kind = "IfStatement")
  | whileLoop (kind : j.kind = "WhileStatement")
  | forLoop (kind : j.kind = "ForStatement")
  | ret (kind : j.kind = "ReturnStatement")
  | other (kind : j.kind ∉ supportedKinds)

theorem shape (j : Json) : j.Shape := by
  by_cases supported : j.kind ∈ supportedKinds
  · obtain plain | structured := List.mem_append.1 supported
    · exact .plain plain
    · simp only [List.mem_cons, List.not_mem_nil, or_false] at structured
      obtain block | branch | whileLoop | forLoop | ret := structured
      · exact .block block
      · exact .branch branch
      · exact .whileLoop whileLoop
      · exact .forLoop forLoop
      · exact .ret ret
  · exact .other supported

theorem inner_block (kind : j.kind = "BlockStatement") : j.inner = j.nodes "body" := by
  simp [inner, kind]

theorem inner_branch (kind : j.kind = "IfStatement") :
    j.inner = j.child "consequent" :: (j.node? "alternate").toList := by
  simp [inner, kind]

theorem inner_whileLoop (kind : j.kind = "WhileStatement") : j.inner = [j.child "body"] := by
  simp [inner, kind]

theorem inner_forLoop (kind : j.kind = "ForStatement") : j.inner = [j.child "body"] := by
  simp [inner, kind]

theorem inner_plain (kind : j.kind ∈ plainKinds) : j.inner = [] := by
  simp only [plainKinds, List.mem_cons, List.not_mem_nil, or_false] at kind
  obtain kind | kind | kind | kind := kind <;> simp [inner, kind]

theorem inner_ret (kind : j.kind = "ReturnStatement") : j.inner = [] := by
  simp [inner, kind]

theorem inner_other (kind : j.kind ∉ supportedKinds) : j.inner = [] := by
  simp only [supportedKinds, plainKinds, List.cons_append, List.nil_append, List.mem_cons,
    List.not_mem_nil, or_false, not_or] at kind
  simp [inner, kind]

theorem depth_of_mem_inner (member : v ∈ j.inner) : v.depth < j.depth := by
  have named : j.kind ≠ "" := by
    intro empty
    simp [inner, empty] at member
  cases j.shape with
  | block kind =>
    rw [inner_block kind] at member
    exact depth_of_mem_nodes member
  | branch kind =>
    rw [inner_branch kind] at member
    obtain rfl | second := List.mem_cons.1 member
    · exact depth_child named
    · exact depth_node? (Option.mem_toList.1 second)
  | whileLoop kind =>
    rw [inner_whileLoop kind] at member
    rw [List.mem_singleton.1 member]
    exact depth_child named
  | forLoop kind =>
    rw [inner_forLoop kind] at member
    rw [List.mem_singleton.1 member]
    exact depth_child named
  | plain kind => simp [inner_plain kind] at member
  | ret kind => simp [inner_ret kind] at member
  | other kind => simp [inner_other kind] at member

/-- A statement and all statements in it, at any depth, in source order. -/
def statements (j : Json) : List Json :=
  j :: j.inner.attach.flatMap fun ⟨s, _⟩ => s.statements
termination_by j.depth
decreasing_by
  exact depth_of_mem_inner (by assumption)

theorem statements_eq (j : Json) : j.statements = j :: j.inner.flatMap statements := by
  rw [statements, List.flatMap_subtype (g := statements) fun _ _ => rfl, List.unattach_attach]

end Json

end Flowgraph
