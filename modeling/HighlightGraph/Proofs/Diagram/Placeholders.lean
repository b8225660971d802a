import HighlightGraph.Proofs.Diagram.Connect
/-!
# Missing nodes stand in for ends of edges

What synthesis adds, and where. One missing node comes in for every end of an edge that has none,
under the name with which the end is mentioned first, with the attributes that the options give to
missing nodes. It goes last in the index and among the external nodes; nothing else changes.
-/

namespace HighlightGraph

/-- The record of a missing node that is given some attributes: it stands in no group, and its name
is its label unless a label is given. -/
structure Node.IsPlaceholder (given : Attributes) (n : Node) : Prop where
  id_eq : n.id = Identifier.ofNode n.name
  missing_eq : n.missing = true
  group_eq : n.group = none
  get?_id : n.attributes.get? "id" = some (.str n.id)
  get?_label : n.attributes.get? "label" =
    some (((given.get? "label").filter Value.isGiven).getD n.name)
  get?_group : n.attributes.get? "group" = none
  get?_other : ∀ k, k ≠ "id" → k ≠ "label" → k ≠ "group" → n.attributes.get? k = given.get? k

theorem Node.isPlaceholder_fresh (name : Value) (given : Attributes) :
    (Node.fresh name given none true).IsPlaceholder given where
  id_eq := rfl
  missing_eq := rfl
  group_eq := rfl
  get?_id := given.get?_ofNode name _ "id"
  get?_label := given.get?_ofNode name _ "label"
  get?_group := given.get?_ofNode name _ "group"
  get?_other k hid hlabel hgroup := by
    show (given.ofNode name _).get? k = _
    rw [given.get?_ofNode, if_neg hid, if_neg hlabel, if_neg hgroup]

namespace Diagram

/-- The identifiers of ends that have no node, in the order in which the edges mention them. -/
def absentIds (d : Diagram) : List String :=
  ((d.ends.map Prod.snd).filter fun id => !d.nodes.contains id).eraseDups

/-! ## Absent ends -/

theorem map_snd_absentEnds (known : String → Bool) (ends : List (Value × String)) :
    (absentEnds known ends).map Prod.snd =
      ((ends.map Prod.snd).filter fun id => !known id).eraseDups := by
  induction ends generalizing known with
  | nil => rfl
  | cons entry rest ih =>
      obtain ⟨name, id⟩ := entry
      rw [absentEnds, List.map_cons]
      by_cases hid : known id = true
      · rw [if_pos hid, ih, List.filter_cons_of_neg (by simp [hid])]
      · rw [if_neg hid, List.filter_cons_of_pos (by simp [hid]), List.eraseDups_cons,
          List.filter_filter, List.map_cons, ih]
        -- The identifier counts as known from here on, which drops its later occurrences.
        congr 3
        funext other
        rw [Bool.not_or, Bool.and_comm]

theorem nodup_map_snd_absentEnds (known : String → Bool) (ends : List (Value × String)) :
    ((absentEnds known ends).map Prod.snd).Nodup := by
  induction ends generalizing known with
  | nil => exact List.nodup_nil
  | cons entry rest ih =>
      obtain ⟨name, id⟩ := entry
      rw [absentEnds]
      split
      · exact ih known
      · rw [List.map_cons, List.nodup_cons, mem_map_snd_absentEnds]
        exact ⟨by simp, ih _⟩

/-- An absent end comes under the name with which its identifier is mentioned first. -/
theorem find?_of_mem_absentEnds {known : String → Bool} {ends : List (Value × String)}
    {entry : Value × String} (h : entry ∈ absentEnds known ends) :
    ends.find? (fun e => e.2 = entry.2) = some entry := by
  induction ends generalizing known with
  | nil => cases h
  | cons head rest ih =>
      obtain ⟨name, id⟩ := head
      have hne : ∀ {known : String → Bool}, known id = true → entry ∈ absentEnds known rest →
          ¬ id = entry.2 := by
        rintro known hid hentry rfl
        have habsent := (mem_map_snd_absentEnds.1 (List.mem_map_of_mem hentry)).2
        rw [hid] at habsent
        cases habsent
      rw [absentEnds] at h
      split at h
      · next hid =>
        rw [List.find?_cons_of_neg (by simpa using hne hid h), ih h]
      · rcases List.mem_cons.1 h with rfl | h
        · rw [List.find?_cons_of_pos (by simp)]
        · rw [List.find?_cons_of_neg (by simpa using hne (by simp) h), ih h]

/-! ## Placing nodes last -/

theorem placeAll_of_external {ns : List Node} (hns : ∀ n ∈ ns, n.group = none) (d : Diagram) :
    d.placeAll ns = { d with
      nodes := d.nodes.overlay (ns.map fun n => (n.id, n))
      external := d.external.overlay (ns.map fun n => (n.id, n)) } := by
  induction ns generalizing d with
  | nil => rfl
  | cons n rest ih =>
      rw [List.forall_mem_cons] at hns
      show (d.place n).placeAll rest = _
      rw [ih hns.2, place_of_external hns.1]
      rfl

theorem Consistent.entries_placeAll {d : Diagram} (h : d.Consistent) {ns : List Node}
    (hgroup : ∀ n ∈ ns, n.group = none) (hnodup : (ns.map Node.id).Nodup)
    (habsent : ∀ id ∈ ns.map Node.id, d.nodes.contains id = false) :
    (d.placeAll ns).nodes.entries = d.nodes.entries ++ ns.map (fun n => (n.id, n)) ∧
      (d.placeAll ns).external.entries = d.external.entries ++ ns.map (fun n => (n.id, n)) ∧
      (d.placeAll ns).groups = d.groups := by
  have hids : (ns.map fun n => (n.id, n)).map Prod.fst = ns.map Node.id := List.map_map
  have happend : ∀ t : Table String Node, (∀ id ∈ t.keys, d.nodes.contains id = true) →
      (t.overlay (ns.map fun n => (n.id, n))).entries =
        t.entries ++ ns.map fun n => (n.id, n) := by
    intro t ht
    apply Table.entries_overlay
    rw [List.map_append, hids, List.nodup_append]
    refine ⟨t.nodup_keys, hnodup, fun id hid other hother heq => ?_⟩
    have hfresh := habsent other hother
    rw [← heq, ht id hid] at hfresh
    cases hfresh
  rw [placeAll_of_external hgroup]
  refine ⟨happend _ fun id hid => Table.contains_iff_mem_keys.2 hid, happend _ fun id hid => ?_, rfl⟩
  rw [← Table.contains_iff_mem_keys, Table.contains_iff] at hid
  obtain ⟨n, hn⟩ := hid
  exact Table.contains_iff.2 ⟨n, (h.filed none id n hn).1⟩

/-- Synthesis in closed form. For every identifier of an end that has no node, in the order in which
the edges mention them, one missing node comes in, last in the index and last among the external
nodes. Nothing else changes, every end has a node then, and another synthesis adds nothing. -/
theorem synthesis_fills_absent_ends {d : Diagram} (h : d.Reached) {given : Attributes}
    (hgiven : d.options.value .missingNode = given.toValue) :
    ∃ after created, d.synthesize = (after, .ok created) ∧
      created.map Node.id = d.absentIds ∧
      (∀ n ∈ created, d.ends.find? (fun e => e.2 = n.id) = some (n.name, n.id) ∧
        n.IsPlaceholder (given.mapValues Value.asMarkup)) ∧
      (∀ source, Options.ofValue source = .ok d.options →
        given.mapValues Value.asMarkup = given) ∧
      after.nodes.entries = d.nodes.entries ++ created.map (fun n => (n.id, n)) ∧
      after.external.entries = d.external.entries ++ created.map (fun n => (n.id, n)) ∧
      after.groups = d.groups ∧ after.edges = d.edges ∧ after.options = d.options ∧
      (∀ e ∈ after.edges, after.nodes.contains e.sourceId = true ∧
        after.nodes.contains e.targetId = true) ∧
      after.synthesize = (after, .ok []) := by
  have hd := h.consistent
  have hattributes : Attributes.recognized (d.options.value .missingNode) =
      .ok (given.mapValues Value.asMarkup) := by
    rw [hgiven, Attributes.recognized_toValue]
  have hsynthesize := hd.toWellFormed.synthesize_eq hattributes
  have hids : (d.missingNodes (given.mapValues Value.asMarkup) d.ends).map Node.id =
      d.absentIds := by
    rw [hd.toWellFormed.map_id_missingNodes, map_snd_absentEnds, absentIds]
  have hgroup : ∀ n ∈ d.missingNodes (given.mapValues Value.asMarkup) d.ends, n.group = none :=
    fun n => group_of_mem_missingNodes
  have hnodup : ((d.missingNodes (given.mapValues Value.asMarkup) d.ends).map Node.id).Nodup := by
    rw [hd.toWellFormed.map_id_missingNodes]
    exact nodup_map_snd_absentEnds _ _
  obtain ⟨hnodes, hexternal, hgroups⟩ := hd.entries_placeAll hgroup hnodup fun id hid =>
    (hd.toWellFormed.mem_map_id_missingNodes.1 hid).2
  refine ⟨_, _, hsynthesize, hids, ?_, ?_, hnodes, hexternal, hgroups, edges_placeAll _ _, ?_, ?_,
    hd.toWellFormed.settled_of_synthesize hsynthesize⟩
  · intro n hn
    obtain ⟨entry, hentry, rfl⟩ := List.mem_map.1 hn
    have hid : Identifier.ofNode entry.1 = entry.2 :=
      (hd.toWellFormed.mem_ends (mem_of_mem_absentEnds hentry)).symm
    refine ⟨?_, Node.isPlaceholder_fresh entry.1 _⟩
    rw [Node.id_fresh, hid]
    exact find?_of_mem_absentEnds hentry
  · intro source hsource
    exact Options.mapValues_asMarkup_of_ofValue hsource rfl hgiven
  · rw [placeAll_of_external hgroup]
  · intro e he
    rw [edges_placeAll] at he
    exact ⟨hd.toWellFormed.contains_of_synthesize hsynthesize (mem_ends_iff.2 ⟨e, he, Or.inl rfl⟩),
      hd.toWellFormed.contains_of_synthesize hsynthesize (mem_ends_iff.2 ⟨e, he, Or.inr rfl⟩)⟩

/-- `B` is mentioned three times, `C!` and `c?` have one identifier, and the given attributes ask for
a group and for an empty label. -/
theorem placeholders_of_repeated_ends :
    ∃ (d after : Diagram) (created : List Node) (given : Attributes), d.Reached ∧
      d.options.value .missingNode = given.toValue ∧
      given.keys = ["group", "label", "color"] ∧
      d.synthesize = (after, .ok created) ∧ created.map Node.id = ["r_b", "r_c_"] ∧
      (∀ n ∈ created, d.ends.find? (fun e => e.2 = n.id) = some (n.name, n.id) ∧
        n.IsPlaceholder (given.mapValues Value.asMarkup)) ∧
      after.nodes.keys = ["r_a", "r_b", "r_c_"] ∧ after.groups = d.groups ∧
      after.synthesize = (after, .ok []) := by
  let given : Attributes :=
    ⟨[("group", .str "x"), ("label", .str ""), ("color", .str "red")], by decide⟩
  let options := Options.defaults.set .missingNode given.toValue
  let steps : List Step :=
    [.node (.str "A") .null [("group", .str "y")], .edge (.str "A") (.str "B") .null [],
      .edge (.str "b") (.str "B") .null [], .edge (.str "C!") (.str "c?") .null []]
  have h : ((new options).run steps).Reached := ⟨_, steps, by decide +kernel, rfl⟩
  have hgiven : ((new options).run steps).options.value .missingNode = given.toValue := by
    rw [options_run]
    rfl
  obtain ⟨after, created, hsynthesize, hids, hcreated, _, hnodes, _, hgroups, _, _, _, hagain⟩ :=
    synthesis_fills_absent_ends h hgiven
  have hids' : created.map Node.id = ["r_b", "r_c_"] := by
    rw [hids]
    decide +kernel
  refine ⟨_, after, created, given, h, hgiven, by decide, hsynthesize, hids', hcreated, ?_, hgroups,
    hagain⟩
  have hkeys : after.nodes.keys = ((new options).run steps).nodes.keys ++ created.map Node.id := by
    rw [Table.keys, hnodes, List.map_append, List.map_map]
    rfl
  rw [hkeys, hids']
  decide +kernel

end Diagram

end HighlightGraph
