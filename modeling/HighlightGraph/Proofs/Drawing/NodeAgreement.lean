import HighlightGraph.Proofs.Diagram.Consistency
import HighlightGraph.Proofs.Drawing.Outline
import HighlightGraph.Proofs.Stylesheet
/-!
# The drawing, the stylesheet and the index name the same nodes

The drawing is made from the places of a diagram, the stylesheet from a walk through them, and the
line of common rank from the index. On a diagram that steps have built they agree.
-/

namespace HighlightGraph

namespace Diagram

/-- Where the statement of a node stands: in the subgraph of its group, or behind all of them. -/
def spot (d : Diagram) (n : Node) : Drawing.Spot :=
  match n.home with
  | none => .after d.groups.size
  | some k => .inside (d.groups.keys.idxOf k)

theorem idxOf_key_of_mem_zipIdx {κ α : Type} [DecidableEq κ] {t : Table κ α} {entry : κ × α}
    {i : Nat} (h : (entry, i) ∈ t.entries.zipIdx) : t.keys.idxOf entry.1 = i := by
  have hentry : t.entries[i]? = some entry := List.mk_mem_zipIdx_iff_getElem?.1 h
  have hkey : t.keys[i]? = some entry.1 := by
    rw [Table.keys, List.getElem?_map, hentry]
    rfl
  obtain ⟨hi, heq⟩ := List.getElem?_eq_some_iff.1 hkey
  rw [← heq]
  exact t.nodup_keys.idxOf_getElem i hi

/-- The placed nodes with their spots, group by group. -/
theorem map_spot_placedNodes {d : Diagram} (h : d.Filed) :
    d.placedNodes.map (fun n => (d.spot n, NodeStatement.ofNode n)) =
      d.groups.entries.zipIdx.flatMap (fun entry =>
        entry.1.2.members.values.map fun n => (.inside entry.2, NodeStatement.ofNode n)) ++
      d.external.values.map fun n => (.after d.groups.size, NodeStatement.ofNode n) := by
  have hhome : ∀ {home : Option Key} {n : Node}, n ∈ (d.residents home).values →
      n.home = home := by
    intro home n hn
    obtain ⟨id, hid⟩ := Table.mem_values_iff.1 hn
    exact (h home id n hid).2
  rw [placedNodes, List.map_append, List.map_flatMap]
  congr 1
  · have hentries : d.groups.values = d.groups.entries.zipIdx.map fun entry => entry.1.2 :=
      calc
        d.groups.values = (d.groups.entries.zipIdx.map Prod.fst).map Prod.snd := by
          rw [List.zipIdx_map_fst]
          rfl
        _ = d.groups.entries.zipIdx.map fun entry => entry.1.2 := List.map_map
    rw [hentries, List.flatMap_map]
    apply List.flatMap_congr
    rintro ⟨⟨k, group⟩, i⟩ hmem
    have hgroup : d.groups.get? k = some group :=
      Table.mem_entries_iff.1 (List.fst_mem_of_mem_zipIdx hmem)
    apply List.map_congr_left
    intro n hn
    rw [← residents_of_group hgroup] at hn
    rw [spot, hhome hn]
    dsimp only
    rw [idxOf_key_of_mem_zipIdx hmem]
  · apply List.map_congr_left
    intro n hn
    have hn : n ∈ (d.residents none).values := hn
    rw [spot, hhome hn]

end Diagram

theorem Subgraph.ofGroup_eq_ok {options : Options} {group : Group} {s : Subgraph}
    (h : Subgraph.ofGroup options group = .ok s) :
    s.id = Identifier.ofGroup group.name.value (options.value .cluster).isGiven ∧
      s.nodes = group.members.values.map .ofNode := by
  obtain ⟨overlay, _, h⟩ := bind_eq_ok h
  obtain ⟨nodeDefaults, _, h⟩ := bind_eq_ok h
  obtain ⟨edgeDefaults, _, h⟩ := bind_eq_ok h
  obtain ⟨fragment, _, h⟩ := bind_eq_ok h
  cases h
  exact ⟨rfl, rfl⟩

namespace Drawing

theorem ofDiagram_eq_ok {d : Diagram} {g : Drawing} (h : ofDiagram d = .ok g) :
    List.Forall₂ (fun group s => Subgraph.ofGroup d.options group = .ok s) d.groups.values
        g.subgraphs ∧
      g.nodes = d.external.values.map .ofNode ∧ g.edges = d.edges.map .ofEdge ∧
      ∃ names, (d.options.value .sameRank).items = .ok names ∧
        g.sameRank = rankMembers d names := by
  obtain ⟨graph, _, h⟩ := bind_eq_ok h
  obtain ⟨nodeDefaults, _, h⟩ := bind_eq_ok h
  obtain ⟨edgeDefaults, _, h⟩ := bind_eq_ok h
  obtain ⟨subgraphs, hsubgraphs, h⟩ := bind_eq_ok h
  obtain ⟨fragment, _, h⟩ := bind_eq_ok h
  obtain ⟨names, hnames, h⟩ := bind_eq_ok h
  cases h
  exact ⟨forall₂_of_mapM_eq_ok hsubgraphs, rfl, rfl, names, hnames, rfl⟩

theorem map_nodes_subgraphs {options : Options} {groups : List Group} {subgraphs : List Subgraph}
    (h : List.Forall₂ (fun group s => Subgraph.ofGroup options group = .ok s) groups subgraphs) :
    subgraphs.map Subgraph.nodes = groups.map fun group => group.members.values.map .ofNode := by
  induction h with
  | nil => rfl
  | cons hs _ ih => rw [List.map_cons, List.map_cons, ih, (Subgraph.ofGroup_eq_ok hs).2]

theorem map_id_subgraphs {options : Options} {groups : List Group} {subgraphs : List Subgraph}
    (h : List.Forall₂ (fun group s => Subgraph.ofGroup options group = .ok s) groups subgraphs) :
    subgraphs.map Subgraph.id = groups.map fun group =>
      Identifier.ofGroup group.name.value (options.value .cluster).isGiven := by
  induction h with
  | nil => rfl
  | cons hs _ ih => rw [List.map_cons, List.map_cons, ih, (Subgraph.ofGroup_eq_ok hs).1]

/-- The node statements of the document of a diagram, each in the place of its node. -/
theorem located_outline_ofDiagram {d : Diagram} {g : Drawing} (hd : d.Filed)
    (h : ofDiagram d = .ok g) :
    located (.after 0) g.outline =
      d.placedNodes.map fun n => (d.spot n, NodeStatement.ofNode n) := by
  obtain ⟨hsubgraphs, hnodes, _, _⟩ := ofDiagram_eq_ok h
  have hlength : g.subgraphs.length = d.groups.size := by
    rw [← hsubgraphs.length_eq, Table.values, List.length_map]
    rfl
  have hinside : ∀ {subgraphs : List Subgraph}, subgraphs.zipIdx.flatMap
      (fun s => s.1.nodes.map (Spot.inside s.2, ·)) =
        (subgraphs.map Subgraph.nodes).zipIdx.flatMap fun s => s.1.map (Spot.inside s.2, ·) := by
    intro subgraphs
    rw [List.zipIdx_map, List.flatMap_map]
    rfl
  rw [located_outline, hinside, map_nodes_subgraphs hsubgraphs, Diagram.map_spot_placedNodes hd,
    hnodes, hlength]
  simp only [Table.values, List.map_map, List.zipIdx_map, List.flatMap_map, Prod.map_fst,
    Prod.map_snd, Function.comp_apply]
  rfl

theorem nodeIds_outline {d : Diagram} {g : Drawing} (hd : d.Filed) (h : ofDiagram d = .ok g) :
    nodeIds g.outline = d.placedNodes.map Node.id := by
  rw [nodeIds, located_outline_ofDiagram hd h, List.map_map]
  rfl

theorem perm_nodeIds_outline {d : Diagram} {g : Drawing} (hd : d.Consistent)
    (h : ofDiagram d = .ok g) : (nodeIds g.outline).Perm d.nodes.keys := by
  rw [nodeIds_outline hd.filed h]
  exact Diagram.perm_map_id_placedNodes hd

theorem mem_nodeIds_outline {d : Diagram} {g : Drawing} (hd : d.Consistent)
    (h : ofDiagram d = .ok g) {id : String} :
    id ∈ nodeIds g.outline ↔ d.nodes.contains id = true := by
  rw [(perm_nodeIds_outline hd h).mem_iff, Table.contains_iff_mem_keys]

theorem openedIds_outline_ofDiagram {d : Diagram} {g : Drawing} (h : ofDiagram d = .ok g) :
    openedIds g.outline = d.groups.values.map fun group =>
      Identifier.ofGroup group.name.value (d.options.value .cluster).isGiven := by
  rw [openedIds_outline, map_id_subgraphs (ofDiagram_eq_ok h).1]

theorem contains_of_mem_rankMembers {d : Diagram} {names : List Value} {id : String}
    (h : id ∈ rankMembers d names) : d.nodes.contains id = true :=
  (List.mem_filter.1 h).2

theorem flatMap_nodes_subgraphs {options : Options} {groups : List Group}
    {subgraphs : List Subgraph} {α : Type} (f : NodeStatement → α)
    (h : List.Forall₂ (fun group s => Subgraph.ofGroup options group = .ok s) groups subgraphs) :
    subgraphs.flatMap (fun s => s.nodes.map f) =
      groups.flatMap fun group => group.members.values.map fun n => f (.ofNode n) :=
  calc
    subgraphs.flatMap (fun s => s.nodes.map f)
      = (subgraphs.map Subgraph.nodes).flatMap (List.map f) := (List.flatMap_map ..).symm
    _ = groups.flatMap fun group => (group.members.values.map .ofNode).map f := by
        rw [map_nodes_subgraphs h, List.flatMap_map]
    _ = groups.flatMap fun group => group.members.values.map fun n => f (.ofNode n) := by
        simp only [List.map_map, Function.comp_def]

/-- The node lines of a diagram, written out in the order of the places. -/
theorem nodeTexts_outline {d : Diagram} {g : Drawing} (hd : d.Filed) (h : ofDiagram d = .ok g) :
    nodeTexts g.outline = d.placedNodes.map fun n =>
      (if n.home.isSome then "    " else "  ") ++ n.id ++ n.drawn.listText ++ ";" := by
  obtain ⟨hsubgraphs, hnodes, _, _⟩ := ofDiagram_eq_ok h
  rw [nodeTexts, filter_isNode_outline, nodeLines, flatMap_nodes_subgraphs _ hsubgraphs, hnodes,
    Diagram.placedNodes, List.map_append, List.map_append, List.map_flatMap, List.map_flatMap]
  congr 1
  · apply List.flatMap_congr
    intro group hgroup
    obtain ⟨k, hk⟩ := Table.mem_values_iff.1 hgroup
    rw [List.map_map]
    apply List.map_congr_left
    intro n hn
    rw [← Diagram.residents_of_group hk] at hn
    obtain ⟨id, hid⟩ := Table.mem_values_iff.1 hn
    rw [(hd (some k) id n hid).2]
    rfl
  · rw [List.map_map, List.map_map]
    apply List.map_congr_left
    intro n hn
    obtain ⟨id, hid⟩ := Table.mem_values_iff.1 hn
    rw [(hd none id n hid).2]
    rfl

/-- The document draws every node of the index once and no other node, in the order of the places
and inside the subgraph of its group; the stylesheet selects the same nodes in the same order; the
line of common rank and the edges mention drawn nodes, as far as the index has them. -/
theorem drawing_and_stylesheet_agree {d : Diagram} (h : d.Reached) {text sheet : String}
    (htext : d.drawingText = .ok text) (hsheet : d.stylesheetText = .ok sheet) :
    ∃ g, ofDiagram d = .ok g ∧ text = "\n".intercalate (g.outline.map Line.text) ++ "\n" ∧
      (nodeIds g.outline).Perm d.nodes.keys ∧
      nodeIds g.outline = d.placedNodes.map Node.id ∧
      (nodeTexts g.outline = d.placedNodes.map fun n =>
        (if n.home.isSome then "    " else "  ") ++ n.id ++ n.drawn.listText ++ ";") ∧
      (openedIds g.outline = d.groups.values.map fun group =>
        Identifier.ofGroup group.name.value (d.options.value .cluster).isGiven) ∧
      (located (.after 0) g.outline =
        d.placedNodes.map fun n => (d.spot n, NodeStatement.ofNode n)) ∧
      (∃ source target further,
        d.options.value .fromStyle = .str source ∧ d.options.value .toStyle = .str target ∧
        d.options.value .css = .str further ∧
        sheet =
          ",\n".intercalate ((nodeIds g.outline).map fun id =>
            "#g." ++ id ++ " [id~=f_" ++ id ++ "] path") ++ "\x7b" ++ source ++ "\x7d\n\n" ++
          (",\n".intercalate ((nodeIds g.outline).map fun id =>
            "#g." ++ id ++ " [id~=t_" ++ id ++ "] path") ++ "\x7b" ++ target ++ "\x7d\n\n") ++
          further ++ "\n") ∧
      (∀ ids, .sameRank ids ∈ g.outline → ∀ id ∈ ids, id ∈ nodeIds g.outline) ∧
      ∀ e ∈ d.edges, ∀ id ∈ [e.sourceId, e.targetId], d.nodes.contains id = true →
        id ∈ nodeIds g.outline := by
  have hd := h.consistent
  obtain ⟨g, hg, rfl⟩ := map_eq_ok htext
  have hids := nodeIds_outline hd.filed hg
  refine ⟨g, hg, text_eq_document g, perm_nodeIds_outline hd hg, hids,
    nodeTexts_outline hd.filed hg, openedIds_outline_ofDiagram hg,
    located_outline_ofDiagram hd.filed hg, ?_, ?_, ?_⟩
  · obtain ⟨source, target, further, hsource, htarget, hfurther, rfl⟩ :=
      Diagram.written_stylesheetText hsheet
    refine ⟨source, target, further, hsource, htarget, hfurther, ?_⟩
    simp only [Selector.rule, Diagram.selectors, List.map_map, Function.comp_def,
      Selector.text_source, Selector.text_target, hids]
  · intro ids hmem id hid
    obtain ⟨_, _, _, names, _, hrank⟩ := ofDiagram_eq_ok hg
    rw [eq_sameRank_of_mem_outline hmem, hrank] at hid
    exact (mem_nodeIds_outline hd hg).2 (contains_of_mem_rankMembers hid)
  · intro e _ id _ hid
    exact (mem_nodeIds_outline hd hg).2 hid

/-- `C` is external and comes first into the index, `A` leaves one group for another, and `Z` has no
node. -/
theorem agreement_of_grouped_drawing :
    let options := Options.defaults.set .sameRank (.list [.str "A", .str "X"])
    let steps : List Step :=
      [.node (.str "C") .null [], .node (.str "A") .null [("group", .str "x")],
        .node (.str "a") .null [("group", .int 1)], .edge (.str "A") (.str "Z") .null []]
    let d := (Diagram.new options).run steps
    let link (id : String) := "href=\"javascript:(function()\x7bdocument.getElementById('g')" ++
      ".setAttribute('class', 'graph " ++ id ++ "')\x7d)()\";"
    d.nodes.keys = ["r_c", "r_a"] ∧
    d.drawingText = .ok (
      "digraph G \x7b\n  id=\"g\";\n  rankdir=\"LR\";\n  node [ shape=\"box3d\"; ];\n" ++
      "  edge [ fontsize=7; color=\"black\"; ];\n\n" ++
      "  subgraph cluster_1 \x7b\n    label=1;\n    color=\"blue\";\n" ++
      "    node [ shape=\"rectangle\"; ];\n    edge [ color=\"black\"; ];\n" ++
      "    r_a [ label=\"a\"; id=\"r_a\"; group=1; " ++ link "r_a" ++ " ];\n  \x7d\n\n" ++
      "  r_c [ label=\"C\"; id=\"r_c\"; " ++ link "r_c" ++ " ];\n\n" ++
      "  r_a -> r_z [ edgetooltip=\"A -&gt; Z\"; id=\"f_r_a t_r_z\"; ];\n" ++
      "  \x7b rank=same; r_a; \x7d\n\x7d\n") ∧
    d.stylesheetText = .ok (
      "#g.r_a [id~=f_r_a] path,\n#g.r_c [id~=f_r_c] path" ++
      "\x7bstroke: red; stroke-width: 4px;\x7d\n\n" ++
      "#g.r_a [id~=t_r_a] path,\n#g.r_c [id~=t_r_c] path" ++
      "\x7bstroke: green; stroke-width: 4px;\x7d\n\n.node \x7b cursor: pointer; \x7d\n") ∧
    ∃ g, ofDiagram d = .ok g ∧ nodeIds g.outline = ["r_a", "r_c"] ∧
      openedIds g.outline = ["cluster_1"] := by
  intro options steps d link
  have hd : d.Reached := ⟨options, steps, by decide +kernel, rfl⟩
  obtain ⟨text, htext⟩ := exists_ok_of_isOk (x := d.drawingText) (by decide +kernel)
  obtain ⟨sheet, hsheet⟩ := exists_ok_of_isOk (x := d.stylesheetText) (by decide +kernel)
  obtain ⟨g, hg, _, _, hids, _, hopened, _⟩ := drawing_and_stylesheet_agree hd htext hsheet
  refine ⟨by decide +kernel, by decide +kernel, by decide +kernel, g, hg, ?_, ?_⟩
  · rw [hids]
    decide +kernel
  · rw [hopened]
    decide +kernel

end Drawing

end HighlightGraph
