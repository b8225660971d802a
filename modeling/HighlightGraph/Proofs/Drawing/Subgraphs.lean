import HighlightGraph.Proofs.Drawing.NodeAgreement
import HighlightGraph.Proofs.Identifier.NormalForm
/-!
# Which groups share a subgraph

Every group of a diagram gets a subgraph, but the drawing program takes subgraphs of one identifier
for one subgraph. Groups of different names are kept apart in the drawing as far as the words of
their names are.
-/

namespace HighlightGraph

/-- Whether the names of two groups, lower-cased, have the same words and agree on beginning and on
ending outside of them. -/
def Group.AlikeInName (group other : Group) : Prop :=
  Identifier.AlikeInWords (Identifier.lowered group.name.value)
    (Identifier.lowered other.name.value)

instance (group other : Group) : Decidable (group.AlikeInName other) :=
  inferInstanceAs (Decidable (Identifier.AlikeInWords _ _))

namespace Drawing

theorem nodup_map_key_groups {d : Diagram} (h : d.WellFormed) :
    (d.groups.values.map fun group => group.name.key).Nodup := by
  have hkeys : d.groups.values.map (fun group => group.name.key) = d.groups.keys := by
    rw [Table.values, Table.keys, List.map_map]
    apply List.map_congr_left
    rintro ⟨k, group⟩ hmem
    exact (h.groups (Table.mem_entries_iff.1 hmem)).1
  rw [hkeys]
  exact d.groups.nodup_keys

/-- The document opens one subgraph for every group, in the order of the groups, which all have
different names. Two groups have one identifier if and only if their names are alike, so that the
identifiers are all different if and only if no two names are alike. -/
theorem subgraph_ids_eq_iff {d : Diagram} (h : d.Reached) {text : String}
    (htext : d.drawingText = .ok text) :
    ∃ g, ofDiagram d = .ok g ∧ text = Line.document g.outline ∧
      (d.groups.values.map fun group => group.name.key).Nodup ∧
      (openedIds g.outline = d.groups.values.map fun group =>
        Identifier.ofGroup group.name.value (d.options.value .cluster).isGiven) ∧
      (∀ (i j : Nat) (group other : Group), d.groups.values[i]? = some group →
        d.groups.values[j]? = some other →
        ((openedIds g.outline)[i]? = (openedIds g.outline)[j]? ↔ group.AlikeInName other)) ∧
      ((openedIds g.outline).Nodup ↔
        d.groups.values.Pairwise fun group other => ¬ group.AlikeInName other) := by
  obtain ⟨g, hg, rfl⟩ := map_eq_ok htext
  have hids := openedIds_outline_ofDiagram hg
  refine ⟨g, hg, text_eq_document g, nodup_map_key_groups h.consistent.toWellFormed, hids, ?_, ?_⟩
  · intro i j group other hgroup hother
    rw [hids, List.getElem?_map, List.getElem?_map, hgroup, hother, Option.map_some,
      Option.map_some, Option.some_inj, Identifier.ofGroup_eq_iff]
    rfl
  · rw [hids, List.Nodup, List.pairwise_map]
    simp only [ne_eq, Identifier.ofGroup_eq_iff]
    rfl

def collidingGroups : List Step :=
  [.node (.str "x") .null [("group", .str "A b")], .node (.str "y") .null [("group", .str "c!")],
    .node (.str "z") .null [("group", .str "a-b")]]

theorem subgraphs_of_colliding_groups :
    ∃ (d : Diagram) (text : String) (g : Drawing), d = (Diagram.new .defaults).run collidingGroups ∧
      d.drawingText = .ok text ∧ text = Line.document g.outline ∧ d.groups.size = 3 ∧
      openedIds g.outline = ["cluster_a_b", "cluster_c_", "cluster_a_b"] ∧
      ¬ (openedIds g.outline).Nodup := by
  let d := (Diagram.new .defaults).run collidingGroups
  have hd : d.Reached := ⟨.defaults, collidingGroups, by decide +kernel, rfl⟩
  obtain ⟨text, htext⟩ := exists_ok_of_isOk (x := d.drawingText) (by decide +kernel)
  obtain ⟨g, -, hdocument, -, hids, -, hnodup⟩ := subgraph_ids_eq_iff hd htext
  refine ⟨d, text, g, rfl, htext, hdocument, by decide +kernel, ?_, ?_⟩
  · rw [hids]
    decide +kernel
  · rw [hnodup]
    decide +kernel

/-- Groups of different names can have one subgraph. -/
theorem groups_can_share_a_subgraph :
    ¬ ∀ (d : Diagram) (g : Drawing), d.Reached → ofDiagram d = .ok g →
      ∀ (i j : Nat) (group other : Group), d.groups.values[i]? = some group →
        d.groups.values[j]? = some other → group.name.key ≠ other.name.key →
          (openedIds g.outline)[i]? ≠ (openedIds g.outline)[j]? := by
  intro hclaim
  let d := (Diagram.new .defaults).run collidingGroups
  have hd : d.Reached := ⟨.defaults, collidingGroups, by decide +kernel, rfl⟩
  obtain ⟨g, hg⟩ := exists_ok_of_isOk (x := ofDiagram d) (by decide +kernel)
  have hids := openedIds_outline_ofDiagram hg
  obtain ⟨first, hfirst⟩ := Option.isSome_iff_exists.1
    (show (d.groups.values[0]?).isSome = true by decide +kernel)
  obtain ⟨last, hlast⟩ := Option.isSome_iff_exists.1
    (show (d.groups.values[2]?).isSome = true by decide +kernel)
  have hnames : first.name.key ≠ last.name.key := by
    have hkeys : (d.groups.values[0]?).map (fun group => group.name.key) ≠
        (d.groups.values[2]?).map (fun group => group.name.key) := by decide +kernel
    rw [hfirst, hlast] at hkeys
    exact fun heq => hkeys (congrArg some heq)
  refine hclaim d g hd hg 0 2 first last hfirst hlast hnames ?_
  rw [hids]
  decide +kernel

end Drawing

end HighlightGraph
