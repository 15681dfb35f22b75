import Flowgraph.Proofs.Notes
import Flowgraph.Render.Dot
import Flowgraph.Render.Format
import Flowgraph.Render.Stats

/-!
# The views of a pruned graph agree

A pruned graph is printed as text, as a record, as nodes and arrows, and as statistics.  The four
are written independently of each other; here each is put into a closed form, and `Views` says how
the closed forms hang together.
-/

namespace Flowgraph

/-- One arrow of a drawing. -/
structure Arrow where
  source : String
  target : String
  attributes : List String
  deriving DecidableEq, Repr

namespace Arrow

def ends (a : Arrow) : String × String := (a.source, a.target)

def line (a : Arrow) : String := Render.edgeLine a.source a.target a.attributes

end Arrow

/-! ## The text of a record -/

namespace BlockRecord

def note (b : BlockRecord) : Render.Note := .ofTargets b.thenTarget b.elseTarget b.loopExit

/-- The labels in order, each but the first behind a comma; a dash if there are none. -/
def listing : List String → String
  | [] => "-"
  | label :: rest => label ++ String.join (rest.map (", " ++ ·))

def neighbours (b : BlockRecord) : String :=
  "Predecessors: " ++ listing b.predecessors ++ "\nSuccessors: " ++ listing b.successors ++ "\n\n"

theorem commaList_eq (labels : List String) : Render.commaList labels = listing labels := by
  cases labels with
  | nil => rfl
  | cons label rest =>
    rw [Render.commaList, if_neg (by simp), listing]
    induction rest generalizing label with
    | nil => simp
    | cons next rest ih =>
      rw [String.intercalate_cons_cons, ih next, List.map_cons, String.join_cons]
      simp only [String.append_assoc]

/-- Every label that is listed stands in the listing. -/
theorem listing_holds {labels : List String} {label : String} (member : label ∈ labels) :
    ∃ before after, listing labels = before ++ label ++ after := by
  cases labels with
  | nil => cases member
  | cons first rest =>
    obtain rfl | later := List.mem_cons.1 member
    · exact ⟨"", _, by rw [String.empty_append]; rfl⟩
    · obtain ⟨before, after, rfl⟩ := List.append_of_mem later
      refine ⟨first ++ String.join (before.map (", " ++ ·)) ++ ", ",
        String.join (after.map (", " ++ ·)), ?_⟩
      simp [listing, String.append_assoc]

/-- Every neighbour is named in the text. -/
theorem neighbours_hold {b : BlockRecord} {label : String}
    (member : label ∈ b.predecessors ∨ label ∈ b.successors) :
    ∃ before after, b.neighbours = before ++ label ++ after := by
  obtain predecessor | successor := member
  · obtain ⟨before, after, held⟩ := listing_holds predecessor
    refine ⟨"Predecessors: " ++ before, after ++ "\nSuccessors: " ++ listing b.successors ++ "\n\n",
      ?_⟩
    delta neighbours
    simp only [held, String.append_assoc]
  · obtain ⟨before, after, held⟩ := listing_holds successor
    refine ⟨"Predecessors: " ++ listing b.predecessors ++ "\nSuccessors: " ++ before,
      after ++ "\n\n", ?_⟩
    delta neighbours
    simp only [held, String.append_assoc]

/-- The stanza with what is recorded of a block. -/
def stanza (b : BlockRecord) : String :=
  "@" ++ b.name ++ " \x7b\n" ++ Render.body b.note b.lines ++ "\x7d\n" ++ b.neighbours

end BlockRecord

namespace GraphRecord

/-- The stanza of the first block shows the signature instead of fragments. -/
def signature (r : GraphRecord) (first : BlockRecord) : String :=
  "@" ++ first.name ++ " \x7b\n" ++ "   name: " ++ r.name ++ "\n" ++ "   ret_type: " ++
    String.join r.returnType ++ "\n" ++ "   args: " ++
    (if r.parameters.isEmpty then "-" else String.join r.parameters) ++ "\n\x7d\n" ++
    first.neighbours

/-- One stanza for every block. -/
def text (r : GraphRecord) : String :=
  match r.blocks with
  | [] => ""
  | first :: rest => r.signature first ++ String.join (rest.map BlockRecord.stanza)

end GraphRecord

/-- The record `r`, the arrows and the other forms in which the graph is printed show the same. -/
structure Views (g : Graph) (r : GraphRecord) (arrows : List Arrow) : Prop where
  name : r.name = g.name
  record : g.record = .ok r
  text : Render.graphText g = .ok r.text
  drawing : ∀ index showLines, ∃ nodes, Render.clusterLines g index showLines =
      .ok ([s!"  subgraph cluster_{index} \x7b",
        "    label=\"" ++ Render.escapeLabel g.name ++ "\";"] ++ nodes ++
        arrows.map Arrow.line ++ ["  \x7d"]) ∧
    List.Forall₂ (fun (b : BlockRecord) line => ∃ x : Block, x.lines = b.lines ∧
      line = Render.nodeLine b.name x showLines) r.blocks nodes
  stats : ∃ s, g.stats = .ok s ∧ s.edges = arrows.length ∧ s.blocks = g.numbering.size
  blocks : r.blocks.map (·.name) = (Mark.printed g.numbering.size).map (Mark.label r.name)
  listed : ∀ b ∈ r.blocks, ∀ labels, labels = b.predecessors ∨ labels = b.successors →
    labels.Nodup ∧ labels.Sublist ((Mark.listed g.numbering.size).map (Mark.label r.name))
  mirrored : ∀ a ∈ r.blocks, ∀ b ∈ r.blocks, b.name ∈ a.successors ↔ a.name ∈ b.predecessors
  single : (arrows.map Arrow.ends).Nodup
  drawn : ∀ a ∈ r.blocks, ∀ b ∈ r.blocks,
    (a.name, b.name) ∈ arrows.map Arrow.ends ↔ b.name ∈ a.successors
  between : ∀ a ∈ arrows, a.source ∈ r.blocks.map (·.name) ∧ a.target ∈ r.blocks.map (·.name)
  arms : ∀ b ∈ r.blocks, ∀ x y, b.note = .arms x y ↔ b.thenTarget = some x ∧ b.elseTarget = some y
  loopEnd : ∀ b ∈ r.blocks, ∀ z, b.note = .loopEnd z ↔ b.loopExit = some z
  nothing : ∀ b ∈ r.blocks, b.note = .nothing ↔
    b.thenTarget = none ∧ b.elseTarget = none ∧ b.loopExit = none

namespace Graph

variable {g : Graph} {h u v : Nat} {x y : Block}

/-! ## The closed forms -/

/-- The live blocks in the order in which they are printed. -/
def shown (g : Graph) : List Nat := entry :: g.roll ++ [exit]

/-- What is recorded of a live block. -/
def recordOf (g : Graph) (h : Nat) : BlockRecord where
  name := g.label h
  lines := (g.filed h).2.lines
  predecessors := g.listed (g.filed h).2.predecessors.toList
  successors := g.listed (g.filed h).2.successors.toList
  thenTarget := (g.filed h).2.thenTarget.map g.label
  elseTarget := (g.filed h).2.elseTarget.map g.label
  loopExit := (g.filed h).2.loopExit.map g.label

/-- The arrows that leave a live block. -/
def arrowsOf (g : Graph) (h : Nat) : List Arrow :=
  (g.filed h).2.successors.toList.map fun v =>
    ⟨g.label h, g.label v, Render.edgeAttributes (g.filed h).2 v (g.filed v).2⟩

def recorded (g : Graph) : GraphRecord :=
  ⟨g.name, g.returnType, g.parameters, g.shown.map g.recordOf⟩

def arrows (g : Graph) : List Arrow := g.shown.flatMap g.arrowsOf

/-- The counts of a graph. -/
def counts (g : Graph) : Stats where
  blocks := g.numbering.size
  edges := g.arrows.length
  branchPoints := g.roll.countP fun h => (g.filed h).2.thenTarget.isSome
  loopHeaders := g.roll.countP fun h => (g.filed h).2.loopExit.isSome
  returningBlocks := g.roll.countP fun h => (g.filed h).2.sealed

theorem shown_perm (g : Graph) : g.shown.Perm g.order := by
  have front : (entry :: g.roll).Perm (g.roll ++ [entry]) := @List.perm_append_comm _ [entry] _
  simpa [shown, order] using front.append_right [Graph.exit]

/-! ## Drawing a graph -/

/-- Every handle that is followed when the graph is drawn names a block. -/
structure Closed (g : Graph) : Prop where
  entry : (g.block? entry).isSome
  exit : (g.block? exit).isSome
  table : ∀ h ∈ g.table, (g.block? h).isSome
  successors : ∀ h x, g.Live h x → ∀ v ∈ x.successors, (g.block? v).isSome

/-- The blocks that have a label, in the order in which they are drawn. -/
def boxes (g : Graph) : List (String × Block) :=
  (g.shown.map g.filed).filterMap fun a => (g.labelOf? a.1 a.2).map (·, a.2)

/-- The lines of the edges that leave a block. -/
def edgesFrom (g : Graph) (name : String) (b : Block) : List String :=
  b.successors.toList.filterMap fun v => (g.labelOf? v (g.filed v).2).map fun target =>
    Render.edgeLine name target (Render.edgeAttributes b v (g.filed v).2)

theorem isAlive_of_label {name : String} (label : g.labelOf? h x = some name) :
    x.isAlive = true := by
  unfold labelOf? at label
  split at label
  · next kind => simp [Block.isAlive, kind]
  · next kind => simp [Block.isAlive, kind]
  · split at label
    · next id _ => simp [Block.isAlive, id]
    · cases label

namespace Closed

variable (closed : g.Closed)

include closed

theorem found (member : h ∈ g.shown) : ∃ x, g.block? h = some x := by
  apply Option.isSome_iff_exists.1
  simp only [shown, List.cons_append, List.mem_cons, List.mem_append, List.not_mem_nil,
    or_false] at member
  obtain rfl | member | rfl := member
  · exact closed.entry
  · exact closed.table h (List.mem_of_mem_filter member)
  · exact closed.exit

theorem mem_boxes {name : String} (member : (name, x) ∈ g.boxes) :
    ∃ h, g.Live h x ∧ g.labelOf? h x = some name := by
  obtain ⟨a, inside, labelled⟩ := List.mem_filterMap.1 member
  obtain ⟨h, listed, rfl⟩ := List.mem_map.1 inside
  obtain ⟨name', label, same⟩ := Option.map_eq_some_iff.1 labelled
  obtain ⟨rfl, rfl⟩ := Prod.mk.inj same
  obtain ⟨y, found⟩ := closed.found listed
  have filed := filed_of_block found
  rw [filed] at label
  rw [filed]
  exact ⟨h, ⟨found, isAlive_of_label label⟩, label⟩

theorem printed_eq : g.printed = .ok (g.shown.map g.filed) := by
  obtain ⟨x, first⟩ := Option.isSome_iff_exists.1 closed.entry
  obtain ⟨y, last⟩ := Option.isSome_iff_exists.1 closed.exit
  have alive := alive_ok fun h member => block?_isSome_iff.1 (closed.table h member)
  rw [printed, find_eq_ok.2 first, alive, find_eq_ok.2 last]
  simp only [shown, List.map_append, List.map_cons, List.map_nil, filed_of_block first,
    filed_of_block last]
  rfl

theorem edgeLines_eq (live : g.Live h x) (name : String) :
    Render.edgeLines g name x = .ok (g.edgesFrom name x) := by
  have each : x.successors.toList.mapM (fun v => do
      let target ← g.find v
      return (g.labelOf? v target).map fun label =>
        Render.edgeLine name label (Render.edgeAttributes x v target)) =
      (.ok (x.successors.toList.map fun v => (g.labelOf? v (g.filed v).2).map fun label =>
        Render.edgeLine name label (Render.edgeAttributes x v (g.filed v).2)) :
        Except Fault (List (Option String))) := by
    refine mapM_ok fun v member => ?_
    obtain ⟨y, found⟩ := Option.isSome_iff_exists.1 (closed.successors h x live v member)
    rw [find_eq_ok.2 found, filed_of_block found]
    rfl
  unfold Render.edgeLines edgesFrom
  rw [each]
  show Except.ok _ = _
  rw [List.filterMap_map]
  rfl

theorem clusterLines_eq (index : Nat) (showLines : Bool) :
    Render.clusterLines g index showLines =
      .ok ([s!"  subgraph cluster_{index} \x7b",
        "    label=\"" ++ Render.escapeLabel g.name ++ "\";"] ++
        g.boxes.map (fun a => Render.nodeLine a.1 a.2 showLines) ++
        g.boxes.flatMap (fun a => g.edgesFrom a.1 a.2) ++ ["  \x7d"]) := by
  have blocks : (g.shown.map g.filed).filterMap
      (fun a => (g.labelOf? a.1 a.2).map fun name => (name, a.2)) = g.boxes := rfl
  have edges : g.boxes.mapM (fun a => Render.edgeLines g a.1 a.2) =
      .ok (g.boxes.map fun a => g.edgesFrom a.1 a.2) := by
    refine mapM_ok fun a member => ?_
    obtain ⟨h, live, -⟩ := closed.mem_boxes member
    exact closed.edgeLines_eq live a.1
  unfold Render.clusterLines
  rw [closed.printed_eq]
  simp only [bind, Except.bind, pure, Except.pure, blocks, edges]
  rfl

end Closed

/-! ## Where every live block has a label -/

namespace Canonical

variable (canonical : g.Canonical)

include canonical

theorem mem_shown : h ∈ g.shown ↔ ∃ x, g.Live h x :=
  g.shown_perm.mem_iff.trans canonical.tidy.mem_order

theorem nodup_shown : g.shown.Nodup := g.shown_perm.nodup_iff.2 canonical.tidy.order_nodup

theorem marks_shown : g.shown.map g.mark = Mark.printed g.numbering.size := by
  rw [shown, List.map_append, List.map_cons, canonical.marks_roll]
  rfl

theorem closed : g.Closed where
  entry := by
    obtain ⟨x, live⟩ := canonical.tidy.live_entry
    exact Option.isSome_of_eq_some live.1
  exit := by
    obtain ⟨x, live⟩ := canonical.tidy.live_exit
    exact Option.isSome_of_eq_some live.1
  table h member := block?_isSome_iff.2 (canonical.tidy.inside h member).2
  successors h x live v member := by
    obtain ⟨y, live'⟩ := canonical.wellFormed.live_successor live member
    exact Option.isSome_of_eq_some live'.1

/-- A walk along the live blocks ends well if it does at each of them. -/
theorem mapM_filed {α : Type} {l : List Nat} (f : Nat × Block → Except Fault α) (f' : Nat → α)
    (inside : ∀ h ∈ l, h ∈ g.shown) (each : ∀ h x, g.Live h x → f (h, x) = .ok (f' h)) :
    (l.map g.filed).mapM f = .ok (l.map f') := by
  rw [List.mapM_map]
  refine mapM_ok fun h member => ?_
  obtain ⟨x, live⟩ := canonical.mem_shown.1 (inside h member)
  rw [Function.comp_apply, live.filed]
  exact each h x live

section Live

variable (live : g.Live h x)

include live

theorem successors_eq : g.sortedLabels x.successors.toList = .ok (g.listed x.successors.toList) :=
  canonical.sortedLabels_eq x.successors.nodup fun _ =>
    canonical.wellFormed.live_successor live

theorem predecessors_eq :
    g.sortedLabels x.predecessors.toList = .ok (g.listed x.predecessors.toList) :=
  canonical.sortedLabels_eq x.predecessors.nodup fun _ =>
    canonical.wellFormed.live_predecessor live

theorem blockRecord?_eq : g.blockRecord? h x = .ok (some (g.recordOf h)) := by
  unfold blockRecord? recordOf
  rw [canonical.labelOf?_eq live, live.filed]
  simp only [canonical.predecessors_eq live, canonical.successors_eq live,
    canonical.thenLabel_eq live, canonical.elseLabel_eq live, canonical.exitLabel_eq live]
  rfl

theorem neighbours_eq : Render.neighbours g x = .ok (g.recordOf h).neighbours := by
  unfold Render.neighbours recordOf BlockRecord.neighbours
  rw [canonical.predecessors_eq live, canonical.successors_eq live, live.filed]
  simp only [← BlockRecord.commaList_eq]
  rfl

theorem stanza_eq : Render.stanza g h x = .ok (g.recordOf h).stanza := by
  unfold Render.stanza
  rw [canonical.labelOf?_eq live, canonical.bodyText_eq live, canonical.neighbours_eq live]
  simp only [BlockRecord.stanza, BlockRecord.note, recordOf, live.filed]
  rfl

/-- Every successor has a label, so an arrow is drawn to each of them. -/
theorem edgesFrom_eq : g.edgesFrom (g.label h) x = (g.arrowsOf h).map Arrow.line := by
  unfold edgesFrom arrowsOf
  rw [live.filed, List.map_map, ← List.filterMap_eq_map]
  refine List.filterMap_congr fun v member => ?_
  obtain ⟨y, live'⟩ := canonical.wellFormed.live_successor live member
  simp only [Function.comp_apply, live'.filed, canonical.labelOf?_eq live']
  rfl

end Live

theorem record_eq : g.record = .ok g.recorded := by
  have each := canonical.mapM_filed (fun a => g.blockRecord? a.1 a.2)
    (fun h => some (g.recordOf h)) (fun _ member => member)
    fun h x live => canonical.blockRecord?_eq live
  unfold record
  rw [canonical.closed.printed_eq]
  simp only [bind, Except.bind, each, recorded, List.filterMap_map]
  exact congrArg (fun blocks => Except.ok (GraphRecord.mk _ _ _ blocks))
    (congrFun List.filterMap_eq_map _)

theorem graphText_eq (pruned : g.phase = .pruned) :
    Render.graphText g = .ok g.recorded.text := by
  obtain ⟨x, first⟩ := canonical.tidy.live_entry
  obtain ⟨y, last⟩ := canonical.tidy.live_exit
  have entryStanza : Render.entryStanza g =
      .ok (g.recorded.signature (g.recordOf Graph.entry)) := by
    unfold Render.entryStanza
    rw [find_eq_ok.2 first.1]
    simp only [bind, Except.bind, canonical.neighbours_eq first]
    delta GraphRecord.signature
    simp [recorded, recordOf, label, mark, BlockKind.ofHandle, Graph.entry,
      Mark.label, Mark.text, String.append_assoc, pure, Except.pure]
  have middle := canonical.mapM_filed (l := g.roll) (fun a => Render.stanza g a.1 a.2)
    (fun h => (g.recordOf h).stanza) (fun h member => by simp [shown, member])
    fun h x live => canonical.stanza_eq live
  simp only [Render.graphText, pruned, ne_eq, not_true_eq_false, if_false, bind, Except.bind,
    entryStanza, canonical.tidy.alive_eq, middle, find_eq_ok.2 last.1, canonical.stanza_eq last, pure,
    Except.pure]
  simp [GraphRecord.text, recorded, shown, String.append_assoc, Function.comp_def]

/-- Every block that is printed has a label. -/
theorem boxes_eq : g.boxes = g.shown.map fun h => (g.label h, (g.filed h).2) := by
  rw [boxes, List.filterMap_map, ← List.filterMap_eq_map]
  refine List.filterMap_congr fun h member => ?_
  obtain ⟨x, live⟩ := canonical.mem_shown.1 member
  simp only [Function.comp_apply, live.filed, canonical.labelOf?_eq live]
  rfl

theorem clusterLines_eq (index : Nat) (showLines : Bool) :
    Render.clusterLines g index showLines =
      .ok ([s!"  subgraph cluster_{index} \x7b",
        "    label=\"" ++ Render.escapeLabel g.name ++ "\";"] ++
        g.shown.map (fun h => Render.nodeLine (g.label h) (g.filed h).2 showLines) ++
        g.arrows.map Arrow.line ++ ["  \x7d"]) := by
  have edges : g.boxes.flatMap (fun a => g.edgesFrom a.1 a.2) = g.arrows.map Arrow.line := by
    rw [canonical.boxes_eq, List.flatMap_map, arrows, List.map_flatMap]
    refine List.flatMap_congr fun h member => ?_
    obtain ⟨x, live⟩ := canonical.mem_shown.1 member
    rw [← canonical.edgesFrom_eq live, live.filed]
  rw [canonical.closed.clusterLines_eq, edges, canonical.boxes_eq, List.map_map]
  rfl

/-! ## How they agree -/

theorem arrows_length :
    g.arrows.length =
      (g.shown.map fun h => g.listed (g.filed h).2.successors.toList).flatten.length := by
  rw [arrows, List.length_flatMap, List.length_flatten, List.map_map]
  -- An arrow is drawn for each successor, and a label is listed for each.
  refine congrArg List.sum (List.map_congr_left fun h member => ?_)
  obtain ⟨x, live⟩ := canonical.mem_shown.1 member
  have perm := canonical.listed_perm x.successors.nodup fun _ =>
    canonical.wellFormed.live_successor live
  simp [arrowsOf, live.filed, perm.length_eq]

theorem stats_eq : g.stats = .ok g.counts := by
  have outgoing := canonical.mapM_filed (fun a => g.sortedLabels a.2.successors.toList)
    (fun h => g.listed (g.filed h).2.successors.toList) (fun _ member => member)
    fun h x live => by rw [canonical.successors_eq live, live.filed]
  unfold stats
  rw [canonical.tidy.alive_eq, canonical.closed.printed_eq]
  simp only [bind, Except.bind, outgoing]
  rw [canonical.arrows_length.symm]
  simp [counts, canonical.numbering, Numbering.size_ofRoll, Function.comp_def, pure, Except.pure]

/-- A live block is among live neighbours if its label is listed. -/
theorem mem_listed {l : OrderedSet Nat} (known : ∀ u ∈ l, ∃ x, g.Live u x) (live : g.Live v y) :
    g.label v ∈ g.listed l.toList ↔ v ∈ l := by
  rw [(canonical.listed_perm l.nodup known).mem_iff, List.mem_map]
  constructor
  · rintro ⟨w, member, same⟩
    obtain ⟨z, live'⟩ := known w member
    rw [← (canonical.label_inj live' live).1 same]
    exact member
  · exact fun member => ⟨v, member, rfl⟩

theorem mem_listed_successors (live : g.Live u x) (live' : g.Live v y) :
    g.label v ∈ g.listed x.successors.toList ↔ v ∈ x.successors :=
  canonical.mem_listed (fun _ => canonical.wellFormed.live_successor live) live'

theorem mem_listed_predecessors (live : g.Live u x) (live' : g.Live v y) :
    g.label u ∈ g.listed y.predecessors.toList ↔ u ∈ y.predecessors :=
  canonical.mem_listed (fun _ => canonical.wellFormed.live_predecessor live') live

theorem mem_ends (live : g.Live u x) (live' : g.Live v y) :
    (g.label u, g.label v) ∈ g.arrows.map Arrow.ends ↔ v ∈ x.successors := by
  rw [arrows, List.map_flatMap, List.mem_flatMap]
  constructor
  · intro found
    obtain ⟨w, inside, member⟩ := found
    obtain ⟨z, source⟩ := canonical.mem_shown.1 inside
    simp only [arrowsOf, List.map_map, List.mem_map, Function.comp_apply, Arrow.ends,
      Prod.mk.injEq] at member
    obtain ⟨w', member, same, same'⟩ := member
    obtain rfl := (canonical.label_inj source live).1 same
    obtain rfl : z = x := Option.some.inj (source.1.symm.trans live.1)
    rw [source.filed] at member
    obtain ⟨z', target⟩ := canonical.wellFormed.live_successor source member
    rw [← (canonical.label_inj target live').1 same']
    exact member
  · intro member
    refine ⟨u, canonical.mem_shown.2 ⟨x, live⟩, ?_⟩
    simp only [arrowsOf, List.map_map, live.filed, List.mem_map]
    exact ⟨v, member, rfl⟩

theorem ends_nodup : (g.arrows.map Arrow.ends).Nodup := by
  rw [arrows, List.map_flatMap, List.nodup_flatMap]
  constructor
  · intro h member
    obtain ⟨x, live⟩ := canonical.mem_shown.1 member
    rw [arrowsOf, List.map_map, live.filed]
    refine x.successors.nodup.map_on fun v left w right same => ?_
    obtain ⟨y, live'⟩ := canonical.wellFormed.live_successor live left
    obtain ⟨z, live''⟩ := canonical.wellFormed.live_successor live right
    exact (canonical.label_inj live' live'').1 (congrArg Prod.snd same)
  · -- Arrows of different blocks have different sources.
    refine canonical.nodup_shown.imp_of_mem fun {u v} left right other => ?_
    intro ends first second
    obtain ⟨x, live⟩ := canonical.mem_shown.1 left
    obtain ⟨y, live'⟩ := canonical.mem_shown.1 right
    simp only [arrowsOf, List.map_map, List.mem_map] at first second
    obtain ⟨w, -, rfl⟩ := first
    obtain ⟨w', -, same⟩ := second
    exact other ((canonical.label_inj live live').1 (congrArg Prod.fst same).symm)

/-- The note on a live block names the targets of the block. -/
theorem note_tells (live : g.Live h x) :
    (∀ s t, g.note x = .arms s t ↔
      x.thenTarget.map g.label = some s ∧ x.elseTarget.map g.label = some t) ∧
    (∀ s, g.note x = .loopEnd s ↔ x.loopExit.map g.label = some s) ∧
    (g.note x = .nothing ↔ x.thenTarget.map g.label = none ∧ x.elseTarget.map g.label = none ∧
      x.loopExit.map g.label = none) := by
  obtain ⟨t, e, isThen, isElse, noExit, eq⟩ | ⟨z, noThen, noElse, isExit, eq⟩ |
      ⟨noThen, noElse, noExit, eq⟩ := canonical.note_cases live
  · simp [isThen, isElse, noExit, eq]
  · simp [noThen, noElse, isExit, eq]
  · simp [noThen, noElse, noExit, eq]

theorem views (pruned : g.phase = .pruned) : Views g g.recorded g.arrows := by
  have each : ∀ b ∈ g.recorded.blocks, ∃ h x, g.Live h x ∧ b = g.recordOf h := by
    intro b member
    obtain ⟨h, inside, rfl⟩ := List.mem_map.1 member
    obtain ⟨x, live⟩ := canonical.mem_shown.1 inside
    exact ⟨h, x, live, rfl⟩
  have noted : ∀ h x, g.Live h x → (g.recordOf h).note = g.note x ∧
      (g.recordOf h).thenTarget = x.thenTarget.map g.label ∧
      (g.recordOf h).elseTarget = x.elseTarget.map g.label ∧
      (g.recordOf h).loopExit = x.loopExit.map g.label := by
    intro h x live
    rw [recordOf, live.filed]
    exact ⟨rfl, rfl, rfl, rfl⟩
  have inside : ∀ h x, g.Live h x → g.label h ∈ g.recorded.blocks.map (·.name) := by
    intro h x live
    rw [recorded, List.map_map]
    exact List.mem_map.2 ⟨h, canonical.mem_shown.2 ⟨x, live⟩, rfl⟩
  constructor
  case name => rfl
  case record => exact canonical.record_eq
  case text => exact canonical.graphText_eq pruned
  case drawing =>
    intro index showLines
    refine ⟨_, canonical.clusterLines_eq index showLines, ?_⟩
    rw [recorded, List.forall₂_map_left_iff, List.forall₂_map_right_iff, List.forall₂_same]
    intro h _
    exact ⟨(g.filed h).2, rfl, rfl⟩
  case stats => exact ⟨g.counts, canonical.stats_eq, rfl, rfl⟩
  case blocks =>
    rw [← canonical.marks_shown, recorded, List.map_map, List.map_map]
    rfl
  case listed =>
    intro b member labels which
    obtain ⟨h, x, live, rfl⟩ := each b member
    obtain rfl | rfl := which
    all_goals exact ⟨canonical.listed_nodup, canonical.listed_sublist⟩
  case mirrored =>
    intro a left b right
    obtain ⟨u, x, live, rfl⟩ := each a left
    obtain ⟨v, y, live', rfl⟩ := each b right
    simp only [recordOf, live.filed, live'.filed]
    rw [canonical.mem_listed_successors live live', canonical.mem_listed_predecessors live live']
    exact canonical.wellFormed.mirrored u x v y live live'
  case single => exact canonical.ends_nodup
  case drawn =>
    intro a left b right
    obtain ⟨u, x, live, rfl⟩ := each a left
    obtain ⟨v, y, live', rfl⟩ := each b right
    simp only [recordOf, live.filed]
    rw [canonical.mem_ends live live', canonical.mem_listed_successors live live']
  case between =>
    intro a member
    obtain ⟨h, inside', member⟩ := List.mem_flatMap.1 member
    obtain ⟨x, live⟩ := canonical.mem_shown.1 inside'
    obtain ⟨v, leads, rfl⟩ := List.mem_map.1 member
    rw [live.filed] at leads
    obtain ⟨y, live'⟩ := canonical.wellFormed.live_successor live leads
    exact ⟨inside h x live, inside v y live'⟩
  case arms =>
    intro b member
    obtain ⟨h, x, live, rfl⟩ := each b member
    obtain ⟨note, isThen, isElse, -⟩ := noted h x live
    rw [note, isThen, isElse]
    exact (canonical.note_tells live).1
  case loopEnd =>
    intro b member
    obtain ⟨h, x, live, rfl⟩ := each b member
    obtain ⟨note, -, -, isExit⟩ := noted h x live
    rw [note, isExit]
    exact (canonical.note_tells live).2.1
  case nothing =>
    intro b member
    obtain ⟨h, x, live, rfl⟩ := each b member
    obtain ⟨note, isThen, isElse, isExit⟩ := noted h x live
    rw [note, isThen, isElse, isExit]
    exact (canonical.note_tells live).2.2

end Canonical

end Graph

namespace SourceFunction

/-- The views of the pruned graph of a function agree. -/
theorem prunedGraph_views (f : SourceFunction) :
    ∃ g report, f.prunedGraph = .ok (g, report) ∧ g.name = f.name ∧
      Views g g.recorded g.arrows := by
  obtain ⟨g₀, live, g, report, draws, reached, run, pruned⟩ := f.prunedGraph_run
  obtain ⟨name, -, -, phase⟩ := pruned.signature draws
  exact ⟨g, report, run, name, (pruned.canonical draws reached).views phase⟩

end SourceFunction

/-- A program whose graphs have views can be drawn. -/
theorem Program.dot_ok {p : Program} (views : ∀ g ∈ p.functions, ∃ r arrows, Views g r arrows)
    (options : Render.DotOptions) : ∃ text, Render.programDot p options = .ok text := by
  have each : ∀ entry ∈ p.functions.zipIdx, ∃ lines,
      (do return "" :: (← Render.clusterLines entry.1 entry.2 options.showLines) :
        Except Fault _) = .ok lines := by
    intro entry member
    obtain ⟨r, arrows, shown⟩ := views entry.1 (List.fst_mem_of_mem_zipIdx member)
    obtain ⟨nodes, run, -⟩ := shown.drawing entry.2 options.showLines
    exact ⟨_, by rw [run]; rfl⟩
  obtain ⟨clusters, run⟩ := exists_mapM each
  exact ⟨_, by rw [Render.programDot, run]; rfl⟩

/-- The views of a program agree, function by function, and no label is used twice. -/
structure Program.Agrees (p : Program) (r : ProgramRecord) : Prop where
  record : p.record = .ok r
  text : Render.programText p = .ok ("/*--- program: " ++ r.sourceFile ++ " ---*/\n" ++
    Render.globalsText r.globals ++ String.join (r.functions.map GraphRecord.text))
  labels : (r.functions.flatMap fun f => f.blocks.map (·.name)).Nodup
  views : List.Forall₂ (fun g r => ∃ arrows, Views g r arrows) p.functions r.functions

namespace SourceProgram

end SourceProgram

end Flowgraph
