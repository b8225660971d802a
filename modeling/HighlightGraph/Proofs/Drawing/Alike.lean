import HighlightGraph.Drawing
import HighlightGraph.Proofs.Attributes.Alike
import HighlightGraph.Proofs.Diagram.Consistency
import HighlightGraph.Proofs.Identifier
/-!
# Drawings of diagrams that differ in texts only

Two diagrams that are the same position by position but for what their texts say, and what this
means for their drawings: the same statements with the same identifiers, and attributes that are
alike.
-/

namespace HighlightGraph

open Attributes (ItemAlike MapsAlike)

/-! ## Diagrams that differ in texts only -/

def Value.SameIdentifier (v w : Value) : Prop := Identifier.ofName v = Identifier.ofName w

instance (v w : Value) : Decidable (v.SameIdentifier w) :=
  inferInstanceAs (Decidable (Identifier.ofName v = Identifier.ofName w))

structure Node.Alike (n m : Node) : Prop where
  name : n.name.SameIdentifier m.name
  attributes : n.attributes.Alike m.attributes
  group : Option.Rel (fun group other => group.value.Alike other.value) n.group m.group

structure Edge.Alike (e f : Edge) : Prop where
  source : e.source.SameIdentifier f.source
  target : e.target.SameIdentifier f.target
  attributes : e.attributes.Alike f.attributes

structure Group.Alike (group other : Group) : Prop where
  identifier : group.name.value.SameIdentifier other.name.value
  name : group.name.value.Alike other.name.value
  members : List.Forall₂ Node.Alike group.members.values other.members.values

/-- Two options without text of their own for the document that differ in texts only. -/
structure Options.Alike (o p : Options) : Prop where
  name : (o.value .name).Alike (p.value .name)
  rankdir : (o.value .rankdir).Alike (p.value .rankdir)
  cluster : o.value .cluster = p.value .cluster
  attributes : ∀ setting ∈ [Setting.graph, .node, .edge, .group, .groupNode, .groupEdge],
    MapsAlike (o.value setting) (p.value setting)
  sameRank : SameOutcome (List.Forall₂ Value.SameIdentifier) (o.value .sameRank).items
    (p.value .sameRank).items
  raw : (o.value .raw).isGiven = false ∧ (p.value .raw).isGiven = false
  groupRaw : o.value .groupRaw = .map [] ∧ p.value .groupRaw = .map []

/-- Two diagrams that are the same position by position but for what texts say. -/
structure Diagram.Alike (d e : Diagram) : Prop where
  options : d.options.Alike e.options
  nodes : List.Forall₂ Node.Alike d.nodes.values e.nodes.values
  groups : List.Forall₂ Group.Alike d.groups.values e.groups.values
  external : List.Forall₂ Node.Alike d.external.values e.external.values
  edges : List.Forall₂ Edge.Alike d.edges e.edges

theorem Options.alike_defaults : Options.defaults.Alike Options.defaults where
  name := .same nofun
  rankdir := .str _ _
  cluster := rfl
  attributes := by
    have hentry : ∀ {name : String} {v : Value}, Attributes.isName name = true → v.Alike v →
        Attributes.EntryAlike (.str name, v) (.str name, v) := by
      intro name v hname hvalue
      refine ⟨rfl, fun other hother => ?_, hvalue⟩
      cases hother
      exact hname
    intro setting hsetting
    simp only [List.mem_cons, List.not_mem_nil, or_false] at hsetting
    rcases hsetting with rfl | rfl | rfl | rfl | rfl | rfl
    · exact .map .nil
    · exact .map (.cons (hentry (by decide) (.str _ _)) .nil)
    · exact .map (.cons (hentry (by decide) (.same nofun))
        (.cons (hentry (by decide) (.str _ _)) .nil))
    · exact .map (.cons (hentry (by decide) (.str _ _)) .nil)
    · exact .map (.cons (hentry (by decide) (.str _ _)) .nil)
    · exact .map (.cons (hentry (by decide) (.str _ _)) .nil)
  sameRank := .ok .nil
  raw := ⟨rfl, rfl⟩
  groupRaw := ⟨rfl, rfl⟩

/-! ## Identifiers -/

theorem quote_notMem_ofNode (name : Value) : '"' ∉ (Identifier.ofNode name).toList :=
  (Identifier.isIdText_ofNode name).notMem (by decide)

theorem quote_notMem_ofGroup (name : Value) (boxed : Bool) :
    '"' ∉ (Identifier.ofGroup name boxed).toList :=
  (Identifier.isIdText_ofGroup name boxed).notMem (by decide)

theorem Value.SameIdentifier.ofNode_eq {v w : Value} (h : v.SameIdentifier w) :
    Identifier.ofNode v = Identifier.ofNode w :=
  congrArg ("r_" ++ ·) h

theorem Value.SameIdentifier.ofGroup_eq {v w : Value} (h : v.SameIdentifier w) (boxed : Bool) :
    Identifier.ofGroup v boxed = Identifier.ofGroup w boxed :=
  congrArg ((if boxed then "cluster_" else "group_") ++ ·) h

theorem Node.Alike.id_eq {n m : Node} (h : n.Alike m) (hn : n.WellFormed) (hm : m.WellFormed) :
    n.id = m.id := by
  rw [hn.id_eq, hm.id_eq, h.name.ofNode_eq]

/-! ## Drawings that differ in texts only -/

structure NodeStatement.Alike (s t : NodeStatement) : Prop where
  id_eq : s.id = t.id
  id_plain : '"' ∉ s.id.toList
  attributes : s.attributes.Alike t.attributes

structure EdgeStatement.Alike (s t : EdgeStatement) : Prop where
  source_eq : s.source = t.source
  target_eq : s.target = t.target
  source_plain : '"' ∉ s.source.toList
  target_plain : '"' ∉ s.target.toList
  attributes : s.attributes.Alike t.attributes

structure Subgraph.Alike (s t : Subgraph) : Prop where
  id_eq : s.id = t.id
  id_plain : '"' ∉ s.id.toList
  settings : List.Forall₂ ItemAlike s.settings t.settings
  nodeDefaults : s.nodeDefaults.Alike t.nodeDefaults
  edgeDefaults : s.edgeDefaults.Alike t.edgeDefaults
  nodes : List.Forall₂ NodeStatement.Alike s.nodes t.nodes
  fragment : s.fragment = none ∧ t.fragment = none

structure Drawing.Alike (g h : Drawing) : Prop where
  settings : List.Forall₂ ItemAlike g.settings h.settings
  nodeDefaults : g.nodeDefaults.Alike h.nodeDefaults
  edgeDefaults : g.edgeDefaults.Alike h.edgeDefaults
  subgraphs : List.Forall₂ Subgraph.Alike g.subgraphs h.subgraphs
  nodes : List.Forall₂ NodeStatement.Alike g.nodes h.nodes
  edges : List.Forall₂ EdgeStatement.Alike g.edges h.edges
  fragment : g.fragment = none ∧ h.fragment = none
  sameRank_eq : g.sameRank = h.sameRank
  sameRank_plain : ∀ id ∈ g.sameRank, '"' ∉ id.toList

theorem Node.Alike.drawn {n m : Node} (h : n.Alike m) (hid : n.id = m.id) :
    n.drawn.Alike m.drawn := by
  have hgroup := h.group
  unfold Node.drawn
  rw [hid]
  generalize n.group = group at hgroup ⊢
  generalize m.group = other at hgroup ⊢
  cases hgroup with
  | none => exact h.attributes.insert (by decide) (.str _ _)
  | some hvalue => exact (h.attributes.insert (by decide) hvalue).insert (by decide) (.str _ _)

theorem NodeStatement.ofNode_alike {n m : Node} (h : n.Alike m) (hn : n.WellFormed)
    (hm : m.WellFormed) : (ofNode n).Alike (ofNode m) where
  id_eq := h.id_eq hn hm
  id_plain := by
    show '"' ∉ n.id.toList
    rw [hn.id_eq]
    exact quote_notMem_ofNode n.name
  attributes := h.drawn (h.id_eq hn hm)

theorem EdgeStatement.ofEdge_alike {e f : Edge} (h : e.Alike f) (he : e.WellFormed)
    (hf : f.WellFormed) : (ofEdge e).Alike (ofEdge f) where
  source_eq := by
    show e.sourceId = f.sourceId
    rw [he.sourceId_eq, hf.sourceId_eq, h.source.ofNode_eq]
  target_eq := by
    show e.targetId = f.targetId
    rw [he.targetId_eq, hf.targetId_eq, h.target.ofNode_eq]
  source_plain := by
    show '"' ∉ e.sourceId.toList
    rw [he.sourceId_eq]
    exact quote_notMem_ofNode e.source
  target_plain := by
    show '"' ∉ e.targetId.toList
    rw [he.targetId_eq]
    exact quote_notMem_ofNode e.target
  attributes := (h.attributes.insert (by decide) (.str _ _)).insert (by decide) (.str _ _)

theorem forall₂_ofNode {ns ms : List Node} (h : List.Forall₂ Node.Alike ns ms)
    (hns : ∀ n ∈ ns, n.WellFormed) (hms : ∀ m ∈ ms, m.WellFormed) :
    List.Forall₂ NodeStatement.Alike (ns.map .ofNode) (ms.map .ofNode) := by
  rw [List.forall₂_map_left_iff, List.forall₂_map_right_iff]
  apply (forall₂_and_mem h).imp
  rintro n m ⟨hnm, hn, hm⟩
  exact NodeStatement.ofNode_alike hnm (hns n hn) (hms m hm)

theorem forall₂_ofEdge {es fs : List Edge} (h : List.Forall₂ Edge.Alike es fs)
    (hes : ∀ e ∈ es, e.WellFormed) (hfs : ∀ f ∈ fs, f.WellFormed) :
    List.Forall₂ EdgeStatement.Alike (es.map .ofEdge) (fs.map .ofEdge) := by
  rw [List.forall₂_map_left_iff, List.forall₂_map_right_iff]
  apply (forall₂_and_mem h).imp
  rintro e f ⟨hef, he, hf⟩
  exact EdgeStatement.ofEdge_alike hef (hes e he) (hfs f hf)

/-! ## From diagrams to drawings -/

theorem Subgraph.ofGroup_alike {o p : Options} (h : o.Alike p) {group other : Group}
    (hgroup : group.Alike other) (hmembers : ∀ n ∈ group.members.values, n.WellFormed)
    (hothers : ∀ m ∈ other.members.values, m.WellFormed) :
    SameOutcome Subgraph.Alike (ofGroup o group) (ofGroup p other) := by
  have hfragment : ∀ key, groupFragment (.map []) key = .ok none := fun _ => rfl
  have hname : Attributes.isName "label" = true := by decide
  have hlabel : List.Forall₂ ItemAlike [("label", group.name.value)]
      [("label", other.name.value)] := .cons ⟨rfl, hname, hgroup.name⟩ .nil
  apply SameOutcome.bind (h.attributes .group (by simp)).ofOverlay
  intro overlay otherOverlay hoverlay
  apply SameOutcome.bind (h.attributes .groupNode (by simp)).ofValue
  intro nodeDefaults otherNodeDefaults hnodeDefaults
  apply SameOutcome.bind (h.attributes .groupEdge (by simp)).ofValue
  intro edgeDefaults otherEdgeDefaults hedgeDefaults
  rw [h.groupRaw.1, h.groupRaw.2, hfragment, hfragment, h.cluster]
  exact .ok {
    id_eq := hgroup.identifier.ofGroup_eq _
    id_plain := quote_notMem_ofGroup _ _
    settings := (Attributes.alike_ofList hlabel).overlay hoverlay
    nodeDefaults := hnodeDefaults
    edgeDefaults := hedgeDefaults
    nodes := forall₂_ofNode hgroup.members hmembers hothers
    fragment := ⟨rfl, rfl⟩ }

namespace Diagram

theorem WellFormed.of_mem_members {d : Diagram} (h : d.WellFormed) {group : Group}
    (hgroup : group ∈ d.groups.values) {n : Node} (hn : n ∈ group.members.values) :
    n.WellFormed := by
  obtain ⟨k, hk⟩ := Table.mem_values_iff.1 hgroup
  obtain ⟨id, hid⟩ := Table.mem_values_iff.1 hn
  rw [← residents_of_group hk] at hid
  exact (h.residents hid).2

theorem WellFormed.of_mem_external {d : Diagram} (h : d.WellFormed) {n : Node}
    (hn : n ∈ d.external.values) : n.WellFormed := by
  obtain ⟨id, hid⟩ := Table.mem_values_iff.1 hn
  have hresident : (d.residents none).get? id = some n := hid
  exact (h.residents hresident).2

theorem WellFormed.keys_nodes {d : Diagram} (h : d.WellFormed) :
    d.nodes.keys = d.nodes.values.map fun n => Identifier.ofNode n.name := by
  rw [← map_id_values fun hn => (h.nodes hn).1]
  apply List.map_congr_left
  intro n hn
  obtain ⟨id, hid⟩ := Table.mem_values_iff.1 hn
  exact (h.nodes hid).2.id_eq

theorem Alike.contains_nodes {d e : Diagram} (h : d.Alike e) (hd : d.WellFormed)
    (he : e.WellFormed) : d.nodes.contains = e.nodes.contains := by
  have hkeys : d.nodes.keys = e.nodes.keys := by
    rw [hd.keys_nodes, he.keys_nodes]
    exact map_eq_map_of_forall₂ (fun n m hnm => hnm.name.ofNode_eq) h.nodes
  funext id
  rw [Bool.eq_iff_iff, Table.contains_iff_mem_keys, Table.contains_iff_mem_keys, hkeys]

theorem Alike.subgraphs {d e : Diagram} (h : d.Alike e) (hd : d.WellFormed) (he : e.WellFormed) :
    SameOutcome (List.Forall₂ Subgraph.Alike) (d.groups.values.mapM (Subgraph.ofGroup d.options))
      (e.groups.values.mapM (Subgraph.ofGroup e.options)) := by
  refine SameOutcome.mapM ?_ (forall₂_and_mem h.groups)
  rintro group other ⟨halike, hgroup, hother⟩
  exact Subgraph.ofGroup_alike h.options halike (fun _ hn => hd.of_mem_members hgroup hn)
    fun _ hm => he.of_mem_members hother hm

end Diagram

theorem Drawing.ofDiagram_alike {d e : Diagram} (h : d.Alike e) (hd : d.WellFormed)
    (he : e.WellFormed) : SameOutcome Drawing.Alike (ofDiagram d) (ofDiagram e) := by
  have hfragment : ∀ {v : Value}, v.isGiven = false → fragmentOf v = .ok none := by
    intro v hv
    unfold fragmentOf
    rw [hv]
    rfl
  have hown : List.Forall₂ ItemAlike (ownSettings d.options) (ownSettings e.options) := by
    have hid : Attributes.isName "id" = true := by decide
    have hrankdir : Attributes.isName "rankdir" = true := by decide
    have hlabel : Attributes.isName "label" = true := by decide
    exact .cons ⟨rfl, hid, .str _ _⟩ (.cons ⟨rfl, hrankdir, h.options.rankdir⟩
      (.cons ⟨rfl, hlabel, h.options.name⟩ .nil))
  apply SameOutcome.bind (h.options.attributes .graph (by simp)).ofMap
  intro graph otherGraph hgraph
  apply SameOutcome.bind (h.options.attributes .node (by simp)).ofValue
  intro nodeDefaults otherNodeDefaults hnodeDefaults
  apply SameOutcome.bind (h.options.attributes .edge (by simp)).ofValue
  intro edgeDefaults otherEdgeDefaults hedgeDefaults
  apply SameOutcome.bind (h.subgraphs hd he)
  intro subgraphs otherSubgraphs hsubgraphs
  rw [hfragment h.options.raw.1, hfragment h.options.raw.2]
  apply SameOutcome.bind h.options.sameRank
  intro names otherNames hnames
  have hrank : rankMembers d names = rankMembers e otherNames := by
    rw [rankMembers, rankMembers, h.contains_nodes hd he,
      map_eq_map_of_forall₂ (fun v w hvw => hvw.ofNode_eq) hnames]
  exact .ok {
    settings := List.rel_append hown hgraph
    nodeDefaults := hnodeDefaults
    edgeDefaults := hedgeDefaults
    subgraphs := hsubgraphs
    nodes := forall₂_ofNode h.external (fun _ hn => hd.of_mem_external hn)
      fun _ hm => he.of_mem_external hm
    edges := forall₂_ofEdge h.edges (fun _ hmem => hd.edges hmem) fun _ hmem => he.edges hmem
    fragment := ⟨rfl, rfl⟩
    sameRank_eq := hrank
    sameRank_plain := by
      intro id hid
      obtain ⟨name, -, rfl⟩ := List.mem_map.1 (List.mem_filter.1 hid).1
      exact quote_notMem_ofNode name }

end HighlightGraph
