import HighlightGraph.Drawing
import Mathlib.Data.List.Basic
/-!
# Outlines of drawing documents

The lines of a drawing document by what each of them says, and the node statements among them with
the subgraph that each stands in.
-/

namespace HighlightGraph.Drawing

inductive Line where
  | opening
  | setting (indent : String) (item : String × Value)
  | defaults (indent kind : String) (attributes : Attributes)
  | subgraph (id : String)
  | node (indent : String) (statement : NodeStatement)
  | edge (statement : EdgeStatement)
  | fragment (text : String)
  | sameRank (ids : List String)
  | closing
  | ending
  | blank

namespace Line

def text : Line → String
  | opening => "digraph G \x7b"
  | setting indent item => indent ++ Attributes.formatItem item
  | defaults indent kind attributes => indent ++ kind ++ attributes.listText ++ ";"
  | subgraph id => "  subgraph " ++ id ++ " \x7b"
  | node indent s => indent ++ s.id ++ s.attributes.listText ++ ";"
  | edge s => "  " ++ s.source ++ " -> " ++ s.target ++ s.attributes.listText ++ ";"
  | fragment text => text
  | sameRank ids => "  \x7b rank=same; " ++ " ".intercalate (ids.map (· ++ ";")) ++ " \x7d"
  | closing => "  \x7d"
  | ending => "\x7d"
  | blank => ""

def document (lines : List Line) : String := "\n".intercalate (lines.map text) ++ "\n"

end Line

/-! ## The outline of a drawing -/

def settingOutline (indent : String) (settings : List (String × Value)) : List Line :=
  (settings.filter Attributes.isSet).map (.setting indent)

def defaultOutline (indent kind : String) (attributes : Attributes) : List Line :=
  if attributes.listText = "" then [] else [.defaults indent kind attributes]

def subgraphOutline (s : Subgraph) : List Line :=
  .subgraph s.id :: (settingOutline "    " s.settings ++
    defaultOutline "    " "node" s.nodeDefaults ++ defaultOutline "    " "edge" s.edgeDefaults ++
    s.nodes.map (.node "    ") ++ s.fragment.toList.map .fragment ++ [.closing, .blank])

def rankOutline (ids : List String) : List Line :=
  if ids.isEmpty then [] else [.sameRank ids]

/-- The lines of a drawing, each by what it says. -/
def outline (g : Drawing) : List Line :=
  .opening :: (settingOutline "  " g.settings ++ defaultOutline "  " "node" g.nodeDefaults ++
    defaultOutline "  " "edge" g.edgeDefaults ++ [.blank] ++ g.subgraphs.flatMap subgraphOutline ++
    g.nodes.map (.node "  ") ++ [.blank] ++ g.edges.map .edge ++
    g.fragment.toList.map .fragment ++ rankOutline g.sameRank ++ [.ending])

@[simp] theorem map_text_settingOutline (indent : String) (settings : List (String × Value)) :
    (settingOutline indent settings).map Line.text = settingLines indent settings := by
  simp only [settingLines, settingOutline, Attributes.items, List.map_map]
  rfl

@[simp] theorem map_text_defaultOutline (indent kind : String) (attributes : Attributes) :
    (defaultOutline indent kind attributes).map Line.text =
      defaultLines indent kind attributes := by
  unfold defaultLines defaultOutline
  split <;> rfl

@[simp] theorem map_text_rankOutline (ids : List String) :
    (rankOutline ids).map Line.text = rankLines ids := by
  unfold rankLines rankOutline
  split <;> rfl

@[simp] theorem map_text_nodes (indent : String) (statements : List NodeStatement) :
    (statements.map (Line.node indent)).map Line.text = statements.map (·.line indent) :=
  List.map_map

@[simp] theorem map_text_edges (statements : List EdgeStatement) :
    (statements.map Line.edge).map Line.text = statements.map EdgeStatement.line :=
  List.map_map

@[simp] theorem map_text_fragment (fragment : Option String) :
    (fragment.toList.map Line.fragment).map Line.text = fragment.toList := by
  cases fragment <;> rfl

@[simp] theorem map_text_subgraphOutline (s : Subgraph) :
    (subgraphOutline s).map Line.text = s.lines := by
  simp only [subgraphOutline, List.map_cons, List.map_append, map_text_settingOutline,
    map_text_defaultOutline, map_text_nodes, map_text_fragment]
  rfl

theorem text_eq_document (g : Drawing) : g.text = Line.document g.outline := by
  have hsubgraphs : (g.subgraphs.flatMap subgraphOutline).map Line.text =
      g.subgraphs.flatMap Subgraph.lines := by
    rw [List.map_flatMap]
    apply List.flatMap_congr
    intro s _
    exact map_text_subgraphOutline s
  have hlines : g.outline.map Line.text = g.lines := by
    simp only [outline, List.map_cons, List.map_append, map_text_settingOutline,
      map_text_defaultOutline, map_text_nodes, map_text_edges, map_text_fragment,
      map_text_rankOutline, hsubgraphs]
    rfl
  rw [text, Line.document, hlines]

/-! ## Node statements and the subgraphs they stand in -/

/-- Where a line stands: inside the subgraph of an index, or outside after a number of them. -/
inductive Spot where
  | inside (index : Nat)
  | after (count : Nat)
deriving DecidableEq

def Spot.begun : Spot → Nat
  | inside index => index + 1
  | after count => count

/-- The node statements among lines that begin at a spot, each with its own spot. -/
def located : Spot → List Line → List (Spot × NodeStatement)
  | _, [] => []
  | spot, .subgraph _ :: rest => located (.inside spot.begun) rest
  | spot, .closing :: rest => located (.after spot.begun) rest
  | spot, .node _ statement :: rest => (spot, statement) :: located spot rest
  | spot, _ :: rest => located spot rest

def nodeIds (lines : List Line) : List String :=
  (located (.after 0) lines).map fun s => s.2.id

def Line.subgraph? : Line → Option String
  | subgraph id => some id
  | _ => none

def openedIds (lines : List Line) : List String := lines.filterMap Line.subgraph?

/-- Whether a line neither draws a node or an edge nor opens or closes a subgraph. -/
def Line.isPlain : Line → Bool
  | subgraph _ | closing | node _ _ | edge _ => false
  | _ => true

theorem located_plain_append {plain : List Line} (h : ∀ line ∈ plain, line.isPlain = true)
    (spot : Spot) (rest : List Line) : located spot (plain ++ rest) = located spot rest := by
  induction plain with
  | nil => rfl
  | cons line tail ih =>
      have hline : line.isPlain = true := h line List.mem_cons_self
      have htail := ih fun line hmem => h line (List.mem_cons_of_mem _ hmem)
      cases line with
      | subgraph id => cases hline
      | closing => cases hline
      | node indent statement => cases hline
      | edge statement => cases hline
      | _ => exact htail

theorem located_nodes_append (indent : String) (statements : List NodeStatement) (spot : Spot)
    (rest : List Line) :
    located spot (statements.map (.node indent) ++ rest) =
      statements.map (spot, ·) ++ located spot rest := by
  induction statements with
  | nil => rfl
  | cons statement tail ih => exact congrArg _ ih

theorem located_edges_append (statements : List EdgeStatement) (spot : Spot) (rest : List Line) :
    located spot (statements.map .edge ++ rest) = located spot rest := by
  induction statements with
  | nil => rfl
  | cons statement tail ih => exact ih

theorem isPlain_settingOutline {indent : String} {settings : List (String × Value)} {line : Line}
    (h : line ∈ settingOutline indent settings) : line.isPlain = true := by
  obtain ⟨item, _, rfl⟩ := List.mem_map.1 h
  rfl

theorem isPlain_defaultOutline {indent kind : String} {attributes : Attributes} {line : Line}
    (h : line ∈ defaultOutline indent kind attributes) : line.isPlain = true := by
  unfold defaultOutline at h
  split at h
  · cases h
  · rw [List.mem_singleton.1 h]
    rfl

theorem isPlain_fragment {fragment : Option String} {line : Line}
    (h : line ∈ fragment.toList.map Line.fragment) : line.isPlain = true := by
  obtain ⟨text, _, rfl⟩ := List.mem_map.1 h
  rfl

theorem isPlain_rankOutline {ids : List String} {line : Line} (h : line ∈ rankOutline ids) :
    line.isPlain = true := by
  unfold rankOutline at h
  split at h
  · cases h
  · rw [List.mem_singleton.1 h]
    rfl

theorem located_subgraphOutline_append (s : Subgraph) (count : Nat) (rest : List Line) :
    located (.after count) (subgraphOutline s ++ rest) =
      s.nodes.map (.inside count, ·) ++ located (.after (count + 1)) rest := by
  simp only [subgraphOutline, List.cons_append, List.append_assoc]
  show located (.inside count) _ = _
  rw [located_plain_append fun _ h => isPlain_settingOutline h,
    located_plain_append fun _ h => isPlain_defaultOutline h,
    located_plain_append fun _ h => isPlain_defaultOutline h, located_nodes_append,
    located_plain_append fun _ h => isPlain_fragment h]
  rfl

theorem located_subgraphs_append (subgraphs : List Subgraph) (count : Nat) (rest : List Line) :
    located (.after count) (subgraphs.flatMap subgraphOutline ++ rest) =
      (subgraphs.zipIdx count).flatMap (fun s => s.1.nodes.map (.inside s.2, ·)) ++
        located (.after (count + subgraphs.length)) rest := by
  induction subgraphs generalizing count with
  | nil => rfl
  | cons s tail ih =>
      have hcount : count + 1 + tail.length = count + (s :: tail).length := by
        rw [List.length_cons]
        omega
      rw [List.flatMap_cons, List.append_assoc, located_subgraphOutline_append, ih,
        List.zipIdx_cons, List.flatMap_cons, List.append_assoc, hcount]

/-- The node statements of a drawing stand in the subgraphs one after the other, and then behind
all of them. -/
theorem located_outline (g : Drawing) :
    located (.after 0) g.outline =
      g.subgraphs.zipIdx.flatMap (fun s => s.1.nodes.map (.inside s.2, ·)) ++
        g.nodes.map (.after g.subgraphs.length, ·) := by
  have hrest : located (.after g.subgraphs.length) (Line.blank :: (g.edges.map Line.edge ++
      (g.fragment.toList.map Line.fragment ++ (rankOutline g.sameRank ++ [.ending])))) = [] := by
    show located (.after g.subgraphs.length) (g.edges.map Line.edge ++ _) = []
    rw [located_edges_append, located_plain_append fun _ h => isPlain_fragment h,
      located_plain_append fun _ h => isPlain_rankOutline h]
    rfl
  simp only [outline, List.append_assoc]
  show located (.after 0) (settingOutline "  " g.settings ++ _) = _
  rw [located_plain_append fun _ h => isPlain_settingOutline h,
    located_plain_append fun _ h => isPlain_defaultOutline h,
    located_plain_append fun _ h => isPlain_defaultOutline h]
  show located (.after 0) (g.subgraphs.flatMap subgraphOutline ++ _) = _
  rw [located_subgraphs_append, located_nodes_append, Nat.zero_add, List.singleton_append, hrest,
    List.append_nil]

/-! ## Identifiers of subgraphs -/

theorem openedIds_append (lines rest : List Line) :
    openedIds (lines ++ rest) = openedIds lines ++ openedIds rest :=
  List.filterMap_append

theorem openedIds_plain {plain : List Line} (h : ∀ line ∈ plain, line.isPlain = true) :
    openedIds plain = [] := by
  apply List.filterMap_eq_nil_iff.2
  intro line hmem
  have hline : line.isPlain = true := h line hmem
  cases line with
  | subgraph id => cases hline
  | _ => rfl

theorem openedIds_nodes (indent : String) (statements : List NodeStatement) :
    openedIds (statements.map (.node indent)) = [] := by
  rw [openedIds, List.filterMap_map]
  exact List.filterMap_eq_nil_iff.2 fun _ _ => rfl

theorem openedIds_edges (statements : List EdgeStatement) :
    openedIds (statements.map .edge) = [] := by
  rw [openedIds, List.filterMap_map]
  exact List.filterMap_eq_nil_iff.2 fun _ _ => rfl

theorem openedIds_subgraphOutline (s : Subgraph) : openedIds (subgraphOutline s) = [s.id] := by
  have hclosing : openedIds [.closing, .blank] = [] := rfl
  show s.id :: openedIds (_ ++ _) = [s.id]
  simp only [openedIds_append, openedIds_nodes, hclosing, List.append_nil,
    openedIds_plain fun _ h => isPlain_settingOutline h,
    openedIds_plain fun _ h => isPlain_defaultOutline h,
    openedIds_plain fun _ h => isPlain_fragment h]

theorem openedIds_subgraphs (subgraphs : List Subgraph) :
    openedIds (subgraphs.flatMap subgraphOutline) = subgraphs.map Subgraph.id := by
  induction subgraphs with
  | nil => rfl
  | cons s tail ih =>
      rw [List.flatMap_cons, openedIds_append, openedIds_subgraphOutline, ih]
      rfl

theorem openedIds_outline (g : Drawing) : openedIds g.outline = g.subgraphs.map Subgraph.id := by
  have hblank : openedIds [.blank] = [] := rfl
  have hending : openedIds [.ending] = [] := rfl
  show openedIds (_ ++ _) = _
  simp only [openedIds_append, openedIds_subgraphs, openedIds_nodes, openedIds_edges, hblank,
    hending, List.append_nil, List.nil_append,
    openedIds_plain fun _ h => isPlain_settingOutline h,
    openedIds_plain fun _ h => isPlain_defaultOutline h,
    openedIds_plain fun _ h => isPlain_fragment h,
    openedIds_plain fun _ h => isPlain_rankOutline h]

/-! ## The lines that draw nodes and edges -/

def Line.isNode : Line → Bool
  | node _ _ => true
  | _ => false

def Line.isEdge : Line → Bool
  | edge _ => true
  | _ => false

def nodeTexts (lines : List Line) : List String := (lines.filter Line.isNode).map Line.text

def edgeTexts (lines : List Line) : List String := (lines.filter Line.isEdge).map Line.text

/-- The node lines of a drawing, those in subgraphs first. -/
def nodeLines (g : Drawing) : List Line :=
  g.subgraphs.flatMap (fun s => s.nodes.map (.node "    ")) ++ g.nodes.map (.node "  ")

section Filter

variable {p : Line → Bool} (hp : ∀ line, p line = true → (line.isNode || line.isEdge) = true)
include hp

theorem filter_plain {plain : List Line} (h : ∀ line ∈ plain, line.isPlain = true) :
    plain.filter p = [] := by
  apply List.filter_eq_nil_iff.2
  intro line hmem hpass
  have hline : line.isPlain = true := h line hmem
  have hdraws := hp line hpass
  cases line with
  | node indent statement => cases hline
  | edge statement => cases hline
  | _ => cases hdraws

theorem filter_subgraphOutline (s : Subgraph) :
    (subgraphOutline s).filter p = (s.nodes.map (Line.node "    ")).filter p := by
  have hopening : p (.subgraph s.id) = false :=
    Bool.eq_false_iff.2 fun h => nomatch hp _ h
  have hclosing : [Line.closing, .blank].filter p = [] :=
    List.filter_eq_nil_iff.2 fun line hmem h => by
      rcases List.mem_cons.1 hmem with rfl | hmem
      · cases hp _ h
      · cases List.mem_singleton.1 hmem
        cases hp _ h
  rw [subgraphOutline, List.filter_cons_of_neg (Bool.eq_false_iff.1 hopening)]
  simp only [List.filter_append, hclosing,
    filter_plain hp fun _ h => isPlain_settingOutline h,
    filter_plain hp fun _ h => isPlain_defaultOutline h,
    filter_plain hp fun _ h => isPlain_fragment h, List.append_nil, List.nil_append]

theorem filter_outline (g : Drawing) :
    g.outline.filter p = g.nodeLines.filter p ++ (g.edges.map Line.edge).filter p := by
  have hplain : ∀ {line : Line}, line.isPlain = true → [line].filter p = [] :=
    fun h => filter_plain hp (List.forall_mem_singleton.2 h)
  have hsubgraphs : (g.subgraphs.flatMap subgraphOutline).filter p =
      (g.subgraphs.flatMap fun s => s.nodes.map (Line.node "    ")).filter p := by
    rw [List.filter_flatMap, List.filter_flatMap]
    exact List.flatMap_congr fun s _ => filter_subgraphOutline hp s
  rw [outline, ← List.singleton_append, List.filter_append, hplain rfl]
  have hblank : [Line.blank].filter p = [] := hplain rfl
  have hending : [Line.ending].filter p = [] := hplain rfl
  simp only [nodeLines, List.filter_append, hblank, hending, hsubgraphs,
    filter_plain hp fun _ h => isPlain_settingOutline h,
    filter_plain hp fun _ h => isPlain_defaultOutline h,
    filter_plain hp fun _ h => isPlain_fragment h,
    filter_plain hp fun _ h => isPlain_rankOutline h, List.append_nil, List.nil_append]

end Filter

theorem exists_node_of_mem_nodeLines {g : Drawing} {line : Line} (h : line ∈ g.nodeLines) :
    ∃ indent statement, line = .node indent statement := by
  rcases List.mem_append.1 h with h | h
  · obtain ⟨s, _, h⟩ := List.mem_flatMap.1 h
    obtain ⟨statement, _, rfl⟩ := List.mem_map.1 h
    exact ⟨_, statement, rfl⟩
  · obtain ⟨statement, _, rfl⟩ := List.mem_map.1 h
    exact ⟨_, statement, rfl⟩

theorem filter_isNode_outline (g : Drawing) : g.outline.filter Line.isNode = g.nodeLines := by
  have hnodes : g.nodeLines.filter Line.isNode = g.nodeLines := by
    rw [List.filter_eq_self]
    intro line h
    obtain ⟨indent, statement, rfl⟩ := exists_node_of_mem_nodeLines h
    rfl
  have hedges : (g.edges.map Line.edge).filter Line.isNode = [] := by
    simp [Line.isNode]
  rw [filter_outline fun line h => by rw [h]; rfl, hnodes, hedges, List.append_nil]

theorem filter_isEdge_outline (g : Drawing) :
    g.outline.filter Line.isEdge = g.edges.map .edge := by
  have hnodes : g.nodeLines.filter Line.isEdge = [] := by
    rw [List.filter_eq_nil_iff]
    intro line h
    obtain ⟨indent, statement, rfl⟩ := exists_node_of_mem_nodeLines h
    exact Bool.false_ne_true
  have hedges : (g.edges.map Line.edge).filter Line.isEdge = g.edges.map .edge := by
    simp [Line.isEdge]
  rw [filter_outline fun line h => by rw [h, Bool.or_true], hnodes, hedges, List.nil_append]

theorem edge_mem_outline_iff {g : Drawing} {e : EdgeStatement} :
    .edge e ∈ g.outline ↔ e ∈ g.edges := by
  have hfilter : .edge e ∈ g.outline.filter Line.isEdge ↔ .edge e ∈ g.outline := by
    rw [List.mem_filter]
    exact and_iff_left rfl
  rw [← hfilter, filter_isEdge_outline]
  simp

theorem eq_sameRank_of_mem_outline {g : Drawing} {ids : List String}
    (h : .sameRank ids ∈ g.outline) : ids = g.sameRank := by
  have hrank : ∀ {other : List String}, .sameRank ids ∈ rankOutline other → ids = other := by
    intro other hmem
    unfold rankOutline at hmem
    split at hmem
    · cases hmem
    · cases List.mem_singleton.1 hmem
      rfl
  apply hrank
  simpa [outline, subgraphOutline, settingOutline, defaultOutline, ite_eq_iff] using h

end HighlightGraph.Drawing
