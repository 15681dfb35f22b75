import Flowgraph.Proofs.Parts
import Flowgraph.Proofs.Statements

/-!
# Text in source order

Fragments are not written in the order in which blocks are numbered: the update of a `for` loop is
written before its body is grown, and the block behind an `if` is made before the arms and numbered
after them.  Still the blocks in the order of their numbers hold the text in source order.  What is
built of a statement is everything but what stands in a row behind a statement that `seals` its block:
a `return`, or a row with one in it.  An `if` does not seal, whatever its arms do.

The invariant is about the spot where control is: `written` is the text of the blocks before it and
of the block that it is in, up to there.  It needs that control always is in the block with the
greatest number, so that nothing is written behind it.
-/

namespace Flowgraph

namespace Statement

mutual

/-- The statement leaves its block sealed. -/
def seals : Statement → Bool
  | .ret _ _ => true
  | .sequence body _ => sealsAny body
  | .simple _ _ | .branch _ _ _ _ | .whileLoop _ _ _ | .forLoop _ _ _ _ _ => false

def sealsAny : List Statement → Bool
  | [] => false
  | s :: rest => s.seals || sealsAny rest

end

mutual

/-- The parts that are built, in source order. -/
def built : Statement → List Part
  | .simple tokens _ => [.simple tokens]
  | .ret tokens _ => [.ret tokens]
  | .sequence body _ => builtAll body
  | .branch condition consequent alternate _ =>
    .branch condition consequent alternate :: (consequent.built ++ builtOption alternate)
  | .whileLoop condition body _ => .whileHeader condition body :: body.built
  | .forLoop init condition update body _ =>
    init.toList.map .clause ++ .forHeader condition body update :: body.built ++
      update.toList.map .clause

def builtAll : List Statement → List Part
  | [] => []
  | s :: rest => s.built ++ if s.seals then [] else builtAll rest

def builtOption : Option Statement → List Part
  | none => []
  | some s => s.built

end

variable {s consequent : Statement} {rest : List Statement} {alternate : Option Statement}
  {condition : List String} {location : Option Location}

@[simp] theorem built_nil : (sequence [] location).built = [] := by
  simp [built, builtAll]

theorem built_cons : (sequence (s :: rest) location).built =
    s.built ++ if s.seals then [] else (sequence rest location).built := by
  simp [built, builtAll]

theorem built_branch : (branch condition consequent alternate location).built =
    .branch condition consequent alternate :: (consequent.built ++ (orElse alternate).built) := by
  cases alternate <;> simp [built, builtOption]

@[simp] theorem seals_nil : (sequence [] location).seals = false := by
  simp [seals, sealsAny]

theorem seals_cons : (sequence (s :: rest) location).seals =
    (s.seals || (sequence rest location).seals) := by
  simp [seals, sealsAny]

end Statement

namespace Part

def isWhile : Part → Bool
  | whileHeader _ _ => true
  | simple _ | ret _ | clause _ | branch _ _ _ | forHeader _ _ _ => false

def isFor : Part → Bool
  | forHeader _ _ _ => true
  | simple _ | ret _ | clause _ | branch _ _ _ | whileHeader _ _ => false

/-- How many blocks are made for the part. -/
def blocks : Part → Nat
  | branch _ _ _ | whileHeader _ _ => 3
  | forHeader _ _ _ => 4
  | simple _ | ret _ | clause _ => 0

end Part

/-- How many blocks are made for parts in a row. -/
def blocksOf : List Part → Nat
  | [] => 0
  | p :: rest => p.blocks + blocksOf rest

@[simp] theorem blocksOf_nil : blocksOf [] = 0 := rfl

@[simp] theorem blocksOf_cons (p : Part) (parts : List Part) :
    blocksOf (p :: parts) = p.blocks + blocksOf parts := rfl

@[simp] theorem blocksOf_append (parts parts' : List Part) :
    blocksOf (parts ++ parts') = blocksOf parts + blocksOf parts' := by
  induction parts with
  | nil => simp
  | cons p rest ih => simp [ih, Nat.add_assoc]

@[simp] theorem blocksOf_clauses (clause : Option (List String)) :
    blocksOf (clause.toList.map .clause) = 0 := by
  cases clause <;> rfl

theorem blocksOf_eq (parts : List Part) : blocksOf parts =
    3 * parts.countP Part.isBranch + 3 * parts.countP Part.isWhile + 4 * parts.countP Part.isFor := by
  induction parts with
  | nil => rfl
  | cons p rest ih =>
    rw [blocksOf_cons, ih]
    simp only [List.countP_cons]
    cases p <;> simp only [Part.blocks, Part.isBranch, Part.isWhile, Part.isFor] <;> simp <;> omega

namespace Graph

variable {g : Graph} {i n m : Nat} {P Q : Spot} {s : Statement} {lines : List String}
  {e : Ending (Option Nat)} {k : Option Nat} {c : Nat} {p : List String} {f : SourceFunction}

/-! ## The text that is written -/

/-- The fragments of block `h`; none if there is no such block. -/
def fragments (g : Graph) (h : Nat) : List String := ((g.core? h).map Block.lines).getD []

/-- The fragments of block number `i`. -/
def fragmentsAt (g : Graph) (i : Nat) : List String := g.table[i]?.toList.flatMap g.fragments

/-- The fragments of the blocks with numbers below `n`, in the order of their numbers. -/
def fragmentsBelow (g : Graph) (n : Nat) : List String := (g.table.take n).flatMap g.fragments

/-- What is written when control is at the spot and the blocks below `m` are numbered. -/
def written (g : Graph) (m : Nat) : Spot → List String
  | none => g.fragmentsBelow m
  | some (q, p) => g.fragmentsBelow q ++ p

theorem Has.fragmentsAt (has : g.Has i lines e) : g.fragmentsAt i = lines := by
  obtain ⟨h, f, named, core, -⟩ := has
  simp [Graph.fragmentsAt, fragments, named, core, Ending.block]

@[simp] theorem fragmentsBelow_succ (n : Nat) :
    g.fragmentsBelow (n + 1) = g.fragmentsBelow n ++ g.fragmentsAt n := by
  rw [fragmentsBelow, List.take_add_one, List.flatMap_append]
  rfl

/-- Where control goes on from the last block, everything below is written. -/
theorem Joins.written (joins : g.Joins Q k) (last : ∀ q p, Q = some (q, p) → q + 1 = m) :
    g.written m Q = g.fragmentsBelow m := by
  match Q with
  | none => rfl
  | some (q, p) =>
    obtain rfl := last q p rfl
    rw [fragmentsBelow_succ, (joins_some.1 joins).fragmentsAt]
    rfl

namespace Layout

/-- Control is in the last block, if anywhere. -/
theorem last (layout : g.Layout s (some (c, p)) Q (c + 1) m) (q : Nat) (p' : List String)
    (out : Q = some (q, p')) : q + 1 = m := by
  obtain ⟨⟨p'', eq⟩, same⟩ | last := layout.leaves_last out
  · cases eq
    exact same
  · exact last

/-- Control does not come out of what seals its block. -/
theorem seals_iff (layout : g.Layout s P Q n m) (start : P = some (c, p)) :
    Q = none ↔ s.seals = true := by
  induction layout generalizing c p with
  | skip => cases start
  | simple | ret | branch | whileLoop | forLoop => simp [Statement.seals]
  | nil => simp [start]
  | @cons s rest l P Q R n m k first second ih₁ ih₂ =>
    rw [Statement.seals_cons, Bool.or_eq_true, ← ih₁ start]
    match Q with
    | none => simp [second.of_none]
    | some (q, p') => simpa using ih₂ rfl

/-- The text of a statement is written behind what was written before. -/
theorem written (layout : g.Layout s P Q n m) (start : P = some (c, p)) (next : n = c + 1) :
    g.written m Q = g.fragmentsBelow c ++ p ++ fragmentsOf s.built := by
  induction layout generalizing c p with
  | skip => cases start
  | simple =>
    cases start
    simp [Graph.written, Statement.built, Part.fragments]
  | ret ends =>
    cases start
    simp [Graph.written, Statement.built, Part.fragments, next, ends.fragmentsAt]
  | nil => simp [Graph.written, start]
  | @cons s rest l P Q R n m k first second ih₁ ih₂ =>
    have before := ih₁ start next
    have sealed := first.seals_iff start
    subst start next
    rw [Statement.built_cons]
    -- Either the first statement seals and the rest is skipped, or the rest is written behind it.
    match Q with
    | none =>
      obtain ⟨rfl, rfl⟩ := second.of_none
      rw [before, if_pos (sealed.1 rfl), List.append_nil]
    | some (q, p') =>
      have goesOn : ¬ s.seals = true := fun seals => by cases sealed.2 seals
      rw [ih₂ rfl (first.last q p' rfl).symm, if_neg goesOn, fragmentsOf_append, ← List.append_assoc,
        ← before]
      rfl
  | @branch cond a b l c p n m r Q Q' ends consequent meets alternate meets' ih₁ ih₂ =>
    cases start
    have first := ih₁ rfl rfl
    have second := ih₂ rfl rfl
    -- Each arm begins when everything before it is written, and ends in the block before the next.
    rw [meets.written consequent.last] at first
    rw [meets'.written alternate.last] at second
    subst next
    rw [Statement.built_branch]
    simp only [Graph.written, second, first, fragmentsBelow_succ, ends.fragmentsAt, fragmentsOf,
      Statement.orElse, Part.fragments, List.flatMap_cons, List.flatMap_append, List.append_nil,
      List.append_assoc]
  | @whileLoop cond body l c p n m Q ends header inside back ih =>
    cases start
    have body := ih rfl rfl
    rw [back.written inside.last] at body
    subst next
    simp only [Graph.written, body, fragmentsBelow_succ, ends.fragmentsAt, header.fragmentsAt,
      Statement.built, fragmentsOf, Part.fragments, List.flatMap_cons, List.append_nil,
      List.append_assoc]
  | @forLoop init cond update body l c p n m Q ends header inside meets back ih =>
    cases start
    have body := ih rfl rfl
    rw [meets.written inside.last] at body
    subst next
    rw [Statement.built]
    simp only [Graph.written, body, fragmentsBelow_succ, ends.fragmentsAt, header.fragmentsAt,
      back.fragmentsAt, fragmentsOf_append, fragmentsOf_clauses, List.append_nil, List.append_assoc]
    simp [fragmentsOf, Part.fragments]

/-- As many numbers are taken up as blocks are made for the parts that are built. -/
theorem numbers (layout : g.Layout s P Q n m) (start : P = some (c, p)) :
    m = n + blocksOf s.built := by
  induction layout generalizing c p with
  | skip => cases start
  | simple | ret => simp [Statement.built, Part.blocks]
  | nil => simp
  | @cons s rest l P Q R n m k first second ih₁ ih₂ =>
    have before := ih₁ start
    have sealed := first.seals_iff start
    rw [Statement.built_cons]
    match Q with
    | none =>
      obtain ⟨rfl, rfl⟩ := second.of_none
      rw [before, if_pos (sealed.1 rfl), List.append_nil]
    | some (q, p') =>
      have goesOn : ¬ s.seals = true := fun seals => by cases sealed.2 seals
      rw [ih₂ rfl, before, if_neg goesOn, blocksOf_append, Nat.add_assoc]
  | @branch cond a b l c p n m r Q Q' ends consequent meets alternate meets' ih₁ ih₂ =>
    have first := ih₁ rfl
    have second := ih₂ rfl
    rw [Statement.built_branch]
    simp only [blocksOf_cons, blocksOf_append, Part.blocks, Statement.orElse]
    omega
  | whileLoop _ _ _ _ ih =>
    have body := ih rfl
    simp only [Statement.built, blocksOf_cons, Part.blocks]
    omega
  | forLoop _ _ _ _ _ ih =>
    have body := ih rfl
    simp only [Statement.built, blocksOf_append, blocksOf_cons, blocksOf_clauses, Part.blocks]
    omega

end Layout

/-! ## The graph of a function -/

/-- The text of the body, block by block. -/
theorem Draws.text (draws : g.Draws f) :
    g.table.flatMap g.fragments = fragmentsOf f.body.built := by
  obtain ⟨Q, layout, joins⟩ := draws.layout
  have written := layout.written rfl rfl
  rw [joins.written layout.last, fragmentsBelow, List.take_length] at written
  simpa [fragmentsBelow] using written

theorem Draws.find_all (draws : g.Draws f) :
    g.table.mapM g.find = .ok (g.table.map fun h => (g.block? h).getD default) := by
  refine mapM_ok fun h member => ?_
  obtain ⟨i, named⟩ := List.mem_iff_getElem?.1 member
  obtain ⟨b, found⟩ := Option.isSome_iff_exists.1
    (block?_isSome_iff.2 (draws.sound.lt_of_named named))
  rw [find_eq_ok.2 found, found]
  rfl

theorem fragments_eq (h : Nat) : g.fragments h = ((g.block? h).getD default).lines := by
  rw [fragments, core?]
  cases g.block? h <;> rfl

/-- One block is made to begin with, the others for headers. -/
theorem Draws.created (draws : g.Draws f) : g.table.length = 1 + blocksOf f.body.built := by
  obtain ⟨Q, layout, -⟩ := draws.layout
  exact layout.numbers rfl

end Graph

/-- Growing a statement where nothing is sealed numbers the blocks of the parts that are built, and
leaves the builder with a sealed block if the statement seals it. -/
theorem Statement.grow_seals (s : Statement) {b : Builder} {c : Nat} {p : List String}
    (sound : b.Sound) (at_ : b.At (some (c, p))) :
    ∃ b', s.grow b = .ok () b' ∧ (b'.Stopped ↔ s.seals = true) ∧
      b'.graph.table.length = b.graph.table.length + blocksOf s.built := by
  obtain ⟨b', Q, run, -, at', -, layout⟩ := s.lays_grow.opened b c p sound at_
  refine ⟨b', run, ?_, layout.numbers rfl⟩
  rw [← layout.seals_iff rfl]
  match Q with
  | none => exact iff_of_true at' rfl
  | some (q, p') =>
    refine iff_of_false (fun stopped => ?_) (by simp)
    obtain ⟨x, core, full⟩ := stopped.core
    cases core.symm.trans at'
    cases full

end Flowgraph
