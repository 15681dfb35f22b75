import Flowgraph.Proofs.Quoting
import Flowgraph.Proofs.Views

/-!
# Drawings can be read

The drawing of a program is a text of lines, and what a line says is in quotes.  Titles and tokens
may hold anything, line feeds and quotes as well; still every line can be read on its own, and says
what it was written for.
-/

namespace Flowgraph

open Render

namespace Render

/-! ## The lines -/

/-- The label of a node: its name, and behind it the text of the block if this is shown. -/
def caption (name : String) (b : Block) (showLines : Bool) : String :=
  let text := Text.trim (String.join b.lines)
  if showLines && !text.isEmpty then name ++ "\n" ++ text else name

/-- What stands behind the label of a node. -/
def look (b : Block) : List String :=
  match b.kind with
  | .entry => [", shape=ellipse, fillcolor=", "#90EE90", ", style=filled];"]
  | .exit => [", shape=ellipse, fillcolor=", "#FFB6C1", ", style=filled];"]
  | .body =>
    if b.thenTarget.isSome || b.loopExit.isSome then
      [", shape=box, fillcolor=", "#87CEEB", ", style=filled];"]
    else if b.sealed then [", shape=box, fillcolor=", "#DDA0DD", ", style=filled];"]
    else [", shape=box];"]

/-- The line of a node. -/
def node (name : String) (b : Block) (showLines : Bool) : List String :=
  "    " :: name :: " [label=" :: caption name b showLines :: look b

/-- What ends the attributes of an edge that has a label. -/
def lastAttributes (back : Bool) : String :=
  if back then ", style=dashed, constraint=false];" else "];"

/-- What stands behind the ends of the edge from `source` to the block `h`, which looks like
`target`. -/
def arrowLook (source : Block) (h : Nat) (target : Block) : List String :=
  let back := isBackEdge source target
  if source.thenTarget = some h then
    [" [label=", "then", ", color=", "#228B22", lastAttributes back]
  else if source.elseTarget = some h then
    [" [label=", "else", ", color=", "#DC143C", lastAttributes back]
  else if source.loopExit = some h then [" [label=", "loop_end", lastAttributes back]
  else [if back then " [style=dashed, constraint=false];" else ";"]

/-- The line of an edge. -/
def edge (from_ to_ : String) (source : Block) (h : Nat) (target : Block) : List String :=
  "    " :: from_ :: " -> " :: to_ :: arrowLook source h target

section

variable {name name' : String} {b source target : Block} {h : Nat} {showLines : Bool}

theorem look_legible (b : Block) : Legible (look b) := by
  unfold look
  split
  · exact .quoted (by decide) (.last (by decide))
  · exact .quoted (by decide) (.last (by decide))
  · split
    · exact .quoted (by decide) (.last (by decide))
    · split
      · exact .quoted (by decide) (.last (by decide))
      · exact .last (by decide)

theorem composed_look (b : Block) :
    composed (look b) = ", " ++ ", ".intercalate (nodeAttributes b) ++ "];" := by
  unfold look nodeAttributes
  cases b.kind with
  | entry | exit => rfl
  | body =>
    cases b.thenTarget.isSome || b.loopExit.isSome with
    | true => rfl
    | false => cases b.sealed <;> rfl

theorem node_legible : Legible (node name b showLines) :=
  .quoted (by decide) (.quoted (by decide) (look_legible b))

/-- A name needs no escapes. -/
theorem composed_node (plain : Plain name) :
    composed (node name b showLines) = nodeLine name b showLines := by
  have opening : "    \"" = "    " ++ "\"" := rfl
  have behind : "\" [label=\"" = "\"" ++ " [label=" ++ "\"" := rfl
  have closing : "\", " = "\"" ++ ", " := rfl
  rw [nodeLine, node, composed, composed, composed_look, escapeLabel_plain plain, opening, behind,
    closing, caption]
  simp only [String.append_assoc]

theorem arrowLook_legible : Legible (arrowLook source h target) := by
  have last : ∀ back, Legible [lastAttributes back] := fun back => .last (by cases back <;> decide)
  unfold arrowLook
  generalize isBackEdge source target = back
  split_ifs
  · exact .quoted (by decide) (.quoted (by decide) (last _))
  · exact .quoted (by decide) (.quoted (by decide) (last _))
  · exact .quoted (by decide) (last _)
  · exact .last (by cases back <;> decide)

theorem composed_arrowLook : composed (arrowLook source h target) =
    (if (edgeAttributes source h target).isEmpty then ""
      else " [" ++ ", ".intercalate (edgeAttributes source h target) ++ "]") ++ ";" := by
  unfold arrowLook edgeAttributes
  generalize isBackEdge source target = back
  -- The first target that is met gives the label; the dashes of a back edge come behind it.
  by_cases isThen : source.thenTarget = some h
  · rw [if_pos isThen, if_pos isThen]
    cases back <;> rfl
  by_cases isElse : source.elseTarget = some h
  · rw [if_neg isThen, if_neg isThen, if_pos isElse, if_pos isElse]
    cases back <;> rfl
  by_cases isExit : source.loopExit = some h
  · rw [if_neg isThen, if_neg isThen, if_neg isElse, if_neg isElse, if_pos isExit, if_pos isExit]
    cases back <;> rfl
  · rw [if_neg isThen, if_neg isThen, if_neg isElse, if_neg isElse, if_neg isExit, if_neg isExit]
    cases back <;> rfl

theorem edge_legible : Legible (edge name name' source h target) :=
  .quoted (by decide) (.quoted (by decide) arrowLook_legible)

theorem composed_edge (plain : Plain name) (plain' : Plain name') :
    composed (edge name name' source h target) =
      edgeLine name name' (edgeAttributes source h target) := by
  have opening : "    \"" = "    " ++ "\"" := rfl
  have between : "\" -> \"" = "\"" ++ " -> " ++ "\"" := rfl
  rw [edgeLine, edge, composed, composed, composed_arrowLook, escapeLabel_plain plain,
    escapeLabel_plain plain', opening, between]
  simp only [String.append_assoc]

end

end Render

namespace Graph

variable {g : Graph} {h index : Nat} {x b : Block} {name : String} {showLines : Bool}

/-- The lines of the edges that leave a block. -/
def leaving (g : Graph) (name : String) (b : Block) : List (List String) :=
  b.successors.toList.filterMap fun v =>
    (g.labelOf? v (g.filed v).2).map fun target => edge name target b v (g.filed v).2

/-- The lines of the cluster of a function. -/
def cluster (g : Graph) (index : Nat) (showLines : Bool) : List (List String) :=
  [[s!"  subgraph cluster_{index} \x7b"], ["    label=", g.name, ";"]] ++
    g.boxes.map (fun a => node a.1 a.2 showLines) ++
    g.boxes.flatMap (fun a => g.leaving a.1 a.2) ++ [["  \x7d"]]

theorem plain_label (plain : Plain g.name) (label : g.labelOf? h b = some name) : Plain name := by
  unfold labelOf? at label
  split at label
  · cases label
    exact plain.append (by decide)
  · cases label
    exact plain.append (by decide)
  · split at label
    · next i _ _ =>
      cases label
      have digits : Plain (toString "_B" ++ toString i) := .append (by decide) (.repr i)
      exact plain.append digits
    · cases label

theorem composed_leaving (plain : Plain g.name) (named : Plain name) :
    (g.leaving name b).map composed = g.edgesFrom name b := by
  unfold leaving edgesFrom
  rw [List.map_filterMap]
  refine List.filterMap_congr fun v _ => ?_
  rw [Option.map_map]
  refine Option.map_congr fun target label => ?_
  exact composed_edge named (plain_label plain label)

theorem Closed.cluster_composed (closed : g.Closed) (plain : Plain g.name) :
    clusterLines g index showLines = .ok ((g.cluster index showLines).map composed) := by
  have named : ∀ a ∈ g.boxes, Plain a.1 := by
    intro a member
    obtain ⟨h, -, label⟩ := closed.mem_boxes member
    exact plain_label plain label
  have nodes : (g.boxes.map fun a => node a.1 a.2 showLines).map composed =
      g.boxes.map fun a => nodeLine a.1 a.2 showLines := by
    rw [List.map_map]
    exact List.map_congr_left fun a member => composed_node (named a member)
  have edges : (g.boxes.flatMap fun a => g.leaving a.1 a.2).map composed =
      g.boxes.flatMap fun a => g.edgesFrom a.1 a.2 := by
    rw [List.map_flatMap]
    exact List.flatMap_congr fun a member => composed_leaving plain (named a member)
  have title : composed ["    label=", g.name, ";"] =
      "    label=\"" ++ escapeLabel g.name ++ "\";" := composed_attribute _ _
  rw [closed.clusterLines_eq, cluster]
  simp only [List.map_append, nodes, edges, List.map_cons, List.map_nil, title]
  rfl

theorem cluster_legible : ∀ l ∈ g.cluster index showLines, Legible l := by
  intro l member
  simp only [cluster, List.mem_append, List.mem_cons, List.not_mem_nil, or_false, List.mem_map,
    List.mem_flatMap] at member
  obtain (((rfl | rfl) | ⟨a, -, rfl⟩) | ⟨a, -, member⟩) | rfl := member
  · have header : Plain (toString "  subgraph cluster_" ++ toString index ++ toString " \x7b") :=
      (Plain.append (by decide) (.repr index)).append (by decide)
    exact .last header.outer
  · exact .quoted (by decide) (.last (by decide))
  · exact node_legible
  · obtain ⟨v, -, label⟩ := List.mem_filterMap.1 member
    obtain ⟨target, -, rfl⟩ := Option.map_eq_some_iff.1 label
    exact edge_legible
  · exact .last (by decide)

/-- All of a graph is drawn: the nodes are its live blocks, each of them once, and a line leads from
each of them to each of its successors. -/
structure Drawn (g : Graph) : Prop where
  closed : g.Closed
  nodes : ∃ handles : List Nat, handles.Nodup ∧ (∀ h, h ∈ handles ↔ ∃ x, g.Live h x) ∧
    List.Forall₂ (fun h a => g.Live h a.2 ∧ g.labelOf? h a.2 = some a.1) handles g.boxes
  edges : ∀ h x name, g.Live h x → List.Forall₂ (fun v line => ∃ y target, g.Live v y ∧
    g.labelOf? v y = some target ∧ line = edge name target x v y)
      x.successors.toList (g.leaving name x)

theorem Canonical.drawn (canonical : g.Canonical) : g.Drawn where
  closed := canonical.closed
  nodes := by
    refine ⟨g.shown, canonical.nodup_shown, fun h => canonical.mem_shown, ?_⟩
    rw [canonical.boxes_eq, List.forall₂_map_right_iff, List.forall₂_same]
    intro h member
    obtain ⟨x, live⟩ := canonical.mem_shown.1 member
    rw [live.filed]
    exact ⟨live, canonical.labelOf?_eq live⟩
  edges h x name live := by
    -- No successor is passed over, since each of them is live and has a label.
    have all : g.leaving name x =
        x.successors.toList.map fun v => edge name (g.label v) x v (g.filed v).2 := by
      rw [leaving, ← List.filterMap_eq_map]
      refine List.filterMap_congr fun v member => ?_
      obtain ⟨y, live'⟩ := canonical.wellFormed.live_successor live member
      rw [Function.comp_apply, live'.filed, canonical.labelOf?_eq live', Option.map_some]
    rw [all, List.forall₂_map_right_iff, List.forall₂_same]
    intro v member
    obtain ⟨y, live'⟩ := canonical.wellFormed.live_successor live member
    rw [live'.filed]
    exact ⟨y, g.label v, live', canonical.labelOf?_eq live', rfl⟩

end Graph

namespace Program

variable {p : Program} {options : DotOptions}

/-- The lines of the drawing of a program: those of the graph itself, and for every function a blank
line and its cluster. -/
def drawing (p : Program) (options : DotOptions) : List (List String) :=
  [["digraph CFG \x7b"],
    ["  label=", options.title.getD p.sourceFile, ";"],
    ["  labelloc=", "t", ";"],
    ["  fontsize=16;"],
    ["  rankdir=", if options.leftToRight then "LR" else "TB", ";"],
    ["  node [fontname=", "monospace", ", fontsize=10];"],
    ["  edge [fontname=", "monospace", ", fontsize=9];"]] ++
  p.functions.zipIdx.flatMap (fun a => [""] :: a.1.cluster a.2 options.showLines) ++ [["\x7d"]]

theorem drawing_legible : ∀ l ∈ p.drawing options, Legible l := by
  intro l member
  simp only [drawing, List.mem_append, List.mem_cons, List.not_mem_nil, or_false,
    List.mem_flatMap] at member
  obtain ((rfl | rfl | rfl | rfl | rfl | rfl | rfl) | ⟨a, -, rfl | member⟩) | rfl := member
  · exact .last (by decide)
  · exact .quoted (by decide) (.last (by decide))
  · exact .quoted (by decide) (.last (by decide))
  · exact .last (by decide)
  · exact .quoted (by decide) (.last (by decide))
  · exact .quoted (by decide) (.last (by decide))
  · exact .quoted (by decide) (.last (by decide))
  · exact .last (by decide)
  · exact Graph.cluster_legible l member
  · exact .last (by decide)

theorem dot_eq (closed : ∀ g ∈ p.functions, g.Closed) (plain : ∀ g ∈ p.functions, Plain g.name) :
    programDot p options = .ok ("\n".intercalate ((p.drawing options).map composed)) := by
  have clusters : p.functions.zipIdx.mapM (fun a =>
      return "" :: (← clusterLines a.1 a.2 options.showLines)) =
      (.ok (p.functions.zipIdx.map fun a =>
        "" :: (a.1.cluster a.2 options.showLines).map composed) : Except Fault _) := by
    refine mapM_ok fun a member => ?_
    have inside := List.fst_mem_of_mem_zipIdx member
    rw [(closed a.1 inside).cluster_composed (plain a.1 inside)]
    rfl
  have title : composed ["  label=", options.title.getD p.sourceFile, ";"] =
      "  label=\"" ++ escapeLabel (options.title.getD p.sourceFile) ++ "\";" :=
    composed_attribute _ _
  have direction : composed ["  rankdir=", if options.leftToRight then "LR" else "TB", ";"] =
      "  rankdir=\"" ++ (if options.leftToRight then "LR" else "TB") ++ "\";" := by
    cases options.leftToRight <;> rfl
  unfold programDot
  simp only [bind, Except.bind, pure, Except.pure] at clusters ⊢
  rw [clusters]
  simp only [drawing, List.map_append, List.map_cons, List.map_nil, List.map_flatMap, title,
    direction]
  rfl

/-- Every line of the drawing of a program can be read on its own, and says what it was written for:
there is one line for every attribute of the graph, and for every header, label, node and edge of a
cluster, and the texts in quotes are those that were escaped.  Pruned graphs are closed, and all of
them is drawn (`SourceFunction.prunedGraph_drawn`); names are plain if they are identifiers. -/
theorem dot_reads (p : Program) (options : DotOptions) (closed : ∀ g ∈ p.functions, g.Closed)
    (plain : ∀ g ∈ p.functions, Plain g.name) :
    ∃ text, programDot p options = .ok text ∧
      (text.toList.splitOn '\n').map Render.read = (p.drawing options).map some := by
  refine ⟨_, dot_eq closed plain, ?_⟩
  -- No line has a line feed, so splitting the text gives the lines that were joined.
  have legible : ∀ l ∈ p.drawing options, Legible l := drawing_legible
  have flat : ∀ line ∈ ((p.drawing options).map composed).map String.toList, '\n' ∉ line := by
    simp only [List.map_map, List.mem_map, Function.comp_apply]
    rintro line ⟨l, member, rfl⟩
    exact (legible l member).flat
  have some_ : ((p.drawing options).map composed).map String.toList ≠ [] := by simp [drawing]
  rw [String.toList_intercalate, show "\n".toList = ['\n'] from rfl,
    List.splitOn_intercalate '\n' flat some_, List.map_map, List.map_map]
  exact List.map_congr_left fun l member => (legible l member).read_composed

end Program

namespace SourceFunction

open Flowgraph.Graph

/-- The pruned graph of a function is drawn in full. -/
theorem prunedGraph_drawn (f : SourceFunction) :
    ∃ g report, f.prunedGraph = .ok (g, report) ∧ g.name = f.name ∧ g.Drawn := by
  obtain ⟨g₀, live, g, report, draws, reached, run, pruned⟩ := f.prunedGraph_run
  obtain ⟨name, -, -, -⟩ := pruned.signature draws
  exact ⟨g, report, run, name, (pruned.canonical draws reached).drawn⟩

/-- A condition with a quote and a backslash, and a statement that goes on for two lines. -/
def quoting : SourceFunction where
  name := "quoting"
  returnType := ["void"]
  parameters := ["string", "s"]
  body := .sequence [
    .branch ["s", "==", "\"\\n\""] (.ret ["return", ";"] none) none none,
    .simple ["s", "=", "`\"\n\\`", ";"] none] none
  location := none

end SourceFunction

theorem Program.dot_reads_quoting : ∃ g report,
    SourceFunction.quoting.prunedGraph = .ok (g, report) ∧
      (∀ g' ∈ [g], g'.Closed) ∧ (∀ g' ∈ [g], Plain g'.name) ∧
      let p : Program := ⟨"C:\\new\\\"x\".ts", [], [g]⟩
      ∃ text, programDot p = .ok text ∧
        (text.toList.splitOn '\n').map Render.read = (p.drawing {}).map some := by
  obtain ⟨g, report, run, name, drawn⟩ := SourceFunction.quoting.prunedGraph_drawn
  have closed : ∀ g' ∈ [g], g'.Closed := by
    intro g' member
    rw [List.mem_singleton.1 member]
    exact drawn.closed
  have plain : ∀ g' ∈ [g], Plain g'.name := by
    intro g' member
    rw [List.mem_singleton.1 member, name]
    decide
  exact ⟨g, report, run, closed, plain, dot_reads _ _ closed plain⟩

end Flowgraph
