import Flowgraph.Generate
import Flowgraph.Proofs.Execution
import Flowgraph.Proofs.Lockstep

/-!
# Statements of one shape

Two statements have the same shape if they differ in the text of their tokens and in their places
only.  Builders that grow them stay in step, and so do the passes that prune their graphs: whether a
block holds any fragment is all that these ask for.
-/

namespace Flowgraph

open Edit

variable {D C : String → String → Prop}

/-! ## Fragments that differ in tokens -/

/-- The fragments differ in tokens: `C` holds of those in the condition of an `if`, `D` of all
others.  The first argument says that the fragments stand behind an `if`, up to the next indent. -/
inductive Respelled (D C : String → String → Prop) : Bool → List String → List String → Prop where
  | nil {behind} : Respelled D C behind [] []
  | indent {behind lines lines'} (rest : Respelled D C false lines lines') :
      Respelled D C behind (Fragment.indent :: lines) (Fragment.indent :: lines')
  | opens {behind lines lines'} (rest : Respelled D C true lines lines') :
      Respelled D C behind ("if" :: lines) ("if" :: lines')
  | fixed {behind lines lines'} (line : String) (other : line ≠ "if")
      (rest : Respelled D C behind lines lines') :
      Respelled D C behind (line :: lines) (line :: lines')
  | token {t t' lines lines'} (related : D t t') (rest : Respelled D C false lines lines') :
      Respelled D C false ((t ++ " ") :: lines) ((t' ++ " ") :: lines')
  | condition {t t' lines lines'} (related : C t t') (rest : Respelled D C true lines lines') :
      Respelled D C true ((t ++ " ") :: lines) ((t' ++ " ") :: lines')

/-- The fragments of whole statements differ in tokens, whatever they stand behind. -/
def Respells (D C : String → String → Prop) (lines lines' : List String) : Prop :=
  ∀ behind, Respelled D C behind lines lines'

namespace Respelled

variable {behind : Bool} {lines lines' more more' tokens tokens' : List String}

theorem append (first : Respelled D C behind lines lines') (second : Respells D C more more') :
    Respelled D C behind (lines ++ more) (lines' ++ more') := by
  induction first with
  | nil => exact second _
  | indent _ ih => exact .indent ih
  | opens _ ih => exact .opens ih
  | fixed line other _ ih => exact .fixed line other ih
  | token related _ ih => exact .token related ih
  | condition related _ ih => exact .condition related ih

theorem isEmpty (respelled : Respelled D C behind lines lines') :
    lines.isEmpty = lines'.isEmpty := by
  cases respelled <;> rfl

theorem plain (related : List.Forall₂ D tokens tokens') (rest : Respelled D C false lines lines') :
    Respelled D C false (Fragment.ofTokens tokens ++ lines)
      (Fragment.ofTokens tokens' ++ lines') := by
  induction related with
  | nil => exact rest
  | cons first _ ih => exact .token first ih

theorem conditions (related : List.Forall₂ C tokens tokens')
    (rest : Respelled D C true lines lines') :
    Respelled D C true (Fragment.ofTokens tokens ++ lines)
      (Fragment.ofTokens tokens' ++ lines') := by
  induction related with
  | nil => exact rest
  | cons first _ ih => exact .condition first ih

end Respelled

namespace Respells

variable {tokens tokens' : List String}

theorem concatenates : Concatenates (Respells D C) where
  nil _ := .nil
  append first second behind := (first behind).append second
  isEmpty both := (both false).isEmpty

theorem statement (related : List.Forall₂ D tokens tokens') :
    Respells D C (Fragment.statement tokens) (Fragment.statement tokens') := fun _ =>
  .indent (.plain related (.fixed "\n" (by decide) .nil))

theorem clause (related : List.Forall₂ D tokens tokens') :
    Respells D C (Fragment.clause tokens) (Fragment.clause tokens') := fun _ =>
  .indent (.plain related (.fixed "; " (by decide) (.fixed "\n" (by decide) .nil)))

theorem ifHeader (related : List.Forall₂ C tokens tokens') :
    Respells D C (Fragment.ifHeader tokens) (Fragment.ifHeader tokens') := fun _ =>
  .indent (.opens (.fixed "( " (by decide)
    (.conditions related (.fixed ") " (by decide) .nil))))

theorem whileHeader (related : List.Forall₂ D tokens tokens') :
    Respells D C (Fragment.whileHeader tokens) (Fragment.whileHeader tokens') := fun _ =>
  .indent (.fixed "while" (by decide) (.fixed "( " (by decide)
    (.plain related (.fixed ") " (by decide) .nil))))

theorem forHeader (related : List.Forall₂ D tokens tokens') :
    Respells D C (Fragment.forHeader tokens) (Fragment.forHeader tokens') := fun _ =>
  .indent (.fixed "for" (by decide) (.fixed "( " (by decide) (.fixed "; " (by decide)
    (.plain related (.fixed "; " (by decide) (.fixed ") " (by decide) .nil))))))

theorem clauseLines {clause clause' : Option (List String)}
    (same : Option.Rel (List.Forall₂ D) clause clause') :
    Respells D C (clauseLines clause) (clauseLines clause') := by
  cases same with
  | none => exact fun _ => .nil
  | some related => exact Respells.clause related

end Respells

/-! ## Growing -/

namespace Statement

open Builder (lockstep_appendAll lockstep_withBranch lockstep_rewind lockstep_currentHandle
  lockstep_advance lockstep_recordThen lockstep_recordElse lockstep_sealToExit lockstep_loop)

/-- The statements have the same shape.  Of tokens in corresponding places `C` holds in the condition
of an `if`, and `D` everywhere else. -/
inductive Shaped (D C : String → String → Prop) : Statement → Statement → Prop where
  | simple {tokens tokens' l l'} (related : List.Forall₂ D tokens tokens') :
      Shaped D C (.simple tokens l) (.simple tokens' l')
  | ret {tokens tokens' l l'} (related : List.Forall₂ D tokens tokens') :
      Shaped D C (.ret tokens l) (.ret tokens' l')
  | nil {l l'} : Shaped D C (.sequence [] l) (.sequence [] l')
  | cons {s s' rest rest' l l'} (first : Shaped D C s s')
      (second : Shaped D C (.sequence rest l) (.sequence rest' l')) :
      Shaped D C (.sequence (s :: rest) l) (.sequence (s' :: rest') l')
  | ifThen {condition condition' a a' l l'} (related : List.Forall₂ C condition condition')
      (thenArm : Shaped D C a a') :
      Shaped D C (.branch condition a none l) (.branch condition' a' none l')
  | ifElse {condition condition' a a' b b' l l'} (related : List.Forall₂ C condition condition')
      (thenArm : Shaped D C a a') (elseArm : Shaped D C b b') :
      Shaped D C (.branch condition a (some b) l) (.branch condition' a' (some b') l')
  | whileLoop {condition condition' body body' l l'} (related : List.Forall₂ D condition condition')
      (inside : Shaped D C body body') :
      Shaped D C (.whileLoop condition body l) (.whileLoop condition' body' l')
  | forLoop {init init' condition condition' update update' body body' l l'}
      (first : Option.Rel (List.Forall₂ D) init init')
      (related : List.Forall₂ D condition condition')
      (last : Option.Rel (List.Forall₂ D) update update') (inside : Shaped D C body body') :
      Shaped D C (.forLoop init condition update body l) (.forLoop init' condition' update' body' l')

variable {s s' a a' : Statement} {b b' : Option Statement} {condition condition' : List String}

theorem lockstep_branch (related : List.Forall₂ C condition condition')
    (thenArm : Lockstep (Builder.Echoes (Respells D C)) Eq a.grow a'.grow)
    (elseArm : Lockstep (Builder.Echoes (Respells D C)) Eq (growOption b) (growOption b')) :
    Lockstep (Builder.Echoes (Respells D C)) Eq (Statement.branch condition a b none).grow
      (Statement.branch condition' a' b' none).grow := by
  have joins := Respells.concatenates (D := D) (C := C)
  unfold grow
  refine (lockstep_appendAll joins (Respells.ifHeader related)).bind_eq fun _ => ?_
  refine (lockstep_withBranch joins ?_).bind_eq fun _ => .pure rfl
  refine lockstep_rewind.bind_eq fun _ => lockstep_currentHandle.bind_eq fun h => ?_
  refine (lockstep_advance joins).bind_eq fun _ => (lockstep_recordThen h).bind_eq fun _ => ?_
  refine thenArm.bind_eq fun _ => lockstep_rewind.bind_eq fun _ => ?_
  exact (lockstep_advance joins).bind_eq fun _ => (lockstep_recordElse h).bind_eq fun _ => elseArm

/-- Builders that grow statements of one shape stay in step. -/
theorem Shaped.lockstep_grow (shaped : Shaped D C s s') :
    Lockstep (Builder.Echoes (Respells D C)) Eq s.grow s'.grow := by
  have joins := Respells.concatenates (D := D) (C := C)
  induction shaped with
  | simple related =>
    unfold grow
    exact lockstep_appendAll joins (Respells.statement related)
  | ret related =>
    unfold grow
    exact (lockstep_appendAll joins (Respells.statement related)).bind_eq fun _ =>
      lockstep_sealToExit
  | nil => exact .pure rfl
  | cons first second ih₁ ih₂ => exact ih₁.bind_eq fun _ => ih₂
  | ifThen related thenArm ih => exact lockstep_branch related ih (.pure rfl)
  | ifElse related thenArm elseArm ih₁ ih₂ => exact lockstep_branch related ih₁ ih₂
  | whileLoop related inside ih =>
    unfold grow
    exact lockstep_loop joins (Respells.whileHeader related) ih
  | forLoop first related last inside ih =>
    have update := (lockstep_withBranch joins
      ((lockstep_appendAll joins (Respells.clauseLines last)).bind_eq fun _ =>
        lockstep_rewind.bind_eq fun _ => ih)).bind_eq
      fun _ => Lockstep.pure (P := Eq) (Eq.refl ())
    have looped := (lockstep_appendAll joins (Respells.clauseLines first)).bind_eq fun _ =>
      lockstep_loop joins (Respells.forHeader related) update
    unfold grow
    cases first <;> cases last <;> exact looped

end Statement

namespace Builder

/-- Builders start alike, whatever the signatures are. -/
theorem echoes_ofSignature (name name' : String) (returnType returnType' : List String)
    (parameters parameters' : List String) {S : List String → List String → Prop}
    (joins : Concatenates S) :
    (ofSignature name returnType parameters).Echoes S
      (ofSignature name' returnType' parameters') where
  graph := by
    refine ⟨rfl, fun h => ?_, rfl, rfl, rfl⟩
    match h with
    | 0 | 1 | 2 => exact .some ⟨rfl, joins.nil⟩
    | _ + 3 => exact .none
  current := rfl
  scopes := rfl

end Builder

namespace SourceFunction

variable {f f' : SourceFunction} {g : Graph} {report : PruneReport}
  (shaped : Statement.Shaped D C f.body f'.body)

include shaped

/-- The graphs of functions of one shape differ in fragments only. -/
theorem graph_echoes (run : f.graph = .ok g) :
    ∃ g', f'.graph = .ok g' ∧ g.Echoes (Respells D C) g' := by
  have start := Builder.echoes_ofSignature f.name f'.name (Fragment.ofTokens f.returnType)
    (Fragment.ofTokens f'.returnType) (Fragment.ofTokens f.parameters)
    (Fragment.ofTokens f'.parameters) (Respells.concatenates (D := D) (C := C))
  have both := shaped.lockstep_grow.bind_eq fun _ => Builder.lockstep_finish
  simp only [graph] at run
  split at run
  · rename_i ran
    cases run
    obtain ⟨g', b', ran', echoes, -⟩ := both _ _ _ _ start ran
    exact ⟨g', by simp only [graph, ran'], echoes⟩
  · cases run

/-- They are pruned in the same way. -/
theorem prunedGraph_echoes (run : f.prunedGraph = .ok (g, report)) :
    ∃ g', f'.prunedGraph = .ok (g', report) ∧ g.Echoes (Respells D C) g' := by
  simp only [prunedGraph, bind, Except.bind] at run ⊢
  cases grown : f.graph with
  | error fault =>
    rw [grown] at run
    cases run
  | ok g₀ =>
    obtain ⟨g₀', grown', echoes⟩ := graph_echoes shaped grown
    rw [grown] at run
    rw [grown']
    cases ran : g₀.prune with
    | error fault g₁ =>
      simp only [ran] at run
      cases run
    | ok report₁ g₁ =>
      simp only [ran] at run
      cases run
      obtain ⟨report', g', ran', same, echoes'⟩ :=
        Graph.lockstep_prune Respells.concatenates _ _ _ _ echoes ran
      subst same
      refine ⟨g', ?_, echoes'⟩
      simp only [ran']
      rfl

end SourceFunction

end Flowgraph
