import HighlightGraph.Proofs.Diagram.Connect
/-!
# Refused steps

What a refused step leaves behind. An edge, synthesis and pruning are carried out or leave the
diagram as it was. A node is not: that its group cannot be a key shows only when it is to be put
there, and by then the node that it replaces has left its place.
-/

namespace HighlightGraph.Diagram

/-- The node that a step takes out of its place and then puts nowhere: its identifier is
registered again, for a group that cannot be a key. -/
def unplaced? (d : Diagram) : Step → Option Node
  | .node name attributes extra =>
    match Attributes.combine Node.reservedNames attributes extra with
    | .ok combined =>
      if combined.wantedGroup?.any fun v => v.key?.isNone then
        (d.nodes.get? (Identifier.ofNode name)).filter fun n => (d.residents n.home).contains n.id
      else none
    | .error _ => none
  | _ => none

/-! ## Leaving a place -/

theorem WellFormed.release_eq_self {d : Diagram} (h : d.WellFormed) {group : Option GroupName}
    {id : String} (hid : (d.residents (group.map GroupName.key)).contains id = false) :
    d.release group id = d := by
  rw [Table.contains_eq_false_iff] at hid
  cases group with
  | none =>
      have hexternal : d.external.erase id = d.external := Table.erase_eq_self hid
      rw [Diagram.release, hexternal]
  | some name =>
      rw [Diagram.release]
      split
      · rfl
      · next rest hrest =>
        rw [Option.map_some, residents_of_group hrest] at hid
        have hgroups : d.groups.insert name.key rest = d.groups := Table.insert_eq_self hrest
        dsimp only
        rw [Table.erase_eq_self hid, if_neg (by rw [(h.groups hrest).2]; exact Bool.false_ne_true),
          hgroups]

theorem contains_residents_release (d : Diagram) (group : Option GroupName) (id : String) :
    ((d.release group id).residents (group.map GroupName.key)).contains id = false := by
  rw [Table.contains_eq_false_iff, get?_residents_release, if_pos ⟨rfl, rfl⟩]

/-- A node leaves its place for any group that cannot be a key. -/
theorem vacate_of_refused (d : Diagram) (id : String) {v : Value} (hv : v.key? = none) :
    d.vacate id (some v) =
      match d.nodes.get? id with
      | some previous => d.release previous.group id
      | none => d := by
  unfold vacate
  cases d.nodes.get? id with
  | none => rfl
  | some previous => exact if_pos (leaves_of_refused hv previous.group)

/-! ## What a refused step does -/

/-- A refused node leaves either everything in place, or all but the node that it was to
replace. -/
theorem WellFormed.refused_node {d : Diagram} (h : d.WellFormed) {name attributes : Value}
    {extra : List (String × Value)}
    (hrefused : (d.step (.node name attributes extra)).2.isOk = false) :
    (d.step (.node name attributes extra)).1 =
      match d.unplaced? (.node name attributes extra) with
      | some n => d.release n.group n.id
      | none => d := by
  simp only [Diagram.step, addNode, unplaced?] at hrefused ⊢
  cases hcombine : Attributes.combine Node.reservedNames attributes extra with
  | error e => rfl
  | ok combined =>
      simp only [hcombine] at hrefused
      dsimp only
      rcases register_cases d name combined false with ⟨_, _, heq⟩ | ⟨v, _, hwanted, hv, heq⟩
      · rw [heq] at hrefused
        cases hrefused
      · have hkey : combined.wantedGroup?.any (fun v => v.key?.isNone) = true := by
          rw [hwanted, Option.any_some, hv]
          rfl
        rw [heq, if_pos hkey, vacate_of_refused d _ hv]
        cases hprevious : d.nodes.get? (Identifier.ofNode name) with
        | none => rfl
        | some previous =>
            have hid : previous.id = Identifier.ofNode name := (h.nodes hprevious).1
            dsimp only
            rw [← hid]
            -- An earlier refusal may have taken the node out already, and this one does nothing.
            cases hresident : (d.residents previous.home).contains previous.id with
            | true => rw [Option.filter_some, if_pos hresident]
            | false =>
                rw [Option.filter_some, if_neg (Bool.eq_false_iff.1 hresident)]
                exact h.release_eq_self hresident

theorem WellFormed.refused_step {d : Diagram} (h : d.WellFormed) {s : Step}
    (hrefused : (d.step s).2.isOk = false) :
    (d.step s).1 = match d.unplaced? s with
      | some n => d.release n.group n.id
      | none => d := by
  cases s with
  | node name attributes extra => exact h.refused_node hrefused
  | edge source target attributes extra =>
      simp only [Diagram.step, addEdge] at hrefused ⊢
      split
      · next hcombine =>
        rw [hcombine] at hrefused
        cases hrefused
      · rfl
  | synthesize =>
      cases hattributes : Attributes.recognized (d.options.value .missingNode) with
      | ok attributes =>
          rw [Diagram.step, h.synthesize_eq hattributes] at hrefused
          cases hrefused
      | error e =>
          rw [Diagram.step, synthesize, synthesizeEnds_of_unrecognized hattributes]
          rfl
  | prune => cases hrefused

theorem WellFormed.release_ne_of_unplaced {d : Diagram} {s : Step} {n : Node}
    (hn : d.unplaced? s = some n) : d.release n.group n.id ≠ d := by
  have hresident : (d.residents n.home).contains n.id = true := by
    unfold unplaced? at hn
    split at hn
    · split at hn
      · split at hn
        · exact (Option.filter_eq_some_iff.1 hn).2
        · cases hn
      · cases hn
    · cases hn
  intro heq
  have hgone := d.contains_residents_release n.group n.id
  rw [heq, ← Node.home, hresident] at hgone
  cases hgone

/-- A refused step leaves the diagram as it was, unless it has taken a node out of its place. Then
that is all it has done: the index, the edges and all other residents of all places stay. -/
theorem refused_step_keeps_diagram_iff (options : Options) (steps : List Step) (s : Step)
    (hrefused : (((new options).run steps).step s).2.isOk = false) :
    let d := (new options).run steps
    let after := (d.step s).1
    (after = d ↔ d.unplaced? s = none) ∧
      after.nodes = d.nodes ∧ after.edges = d.edges ∧
      ∀ n, d.unplaced? s = some n → after = d.release n.group n.id ∧
        ∀ home, after.residents home =
          if home = n.home then (d.residents home).erase n.id else d.residents home := by
  intro d after
  have hafter : after = _ := (wellFormed_run options steps).refused_step hrefused
  change after = match d.unplaced? s with
    | some n => d.release n.group n.id
    | none => d at hafter
  rw [hafter]
  cases hunplaced : d.unplaced? s with
  | none => exact ⟨iff_of_true rfl rfl, rfl, rfl, nofun⟩
  | some n =>
      refine ⟨iff_of_false (WellFormed.release_ne_of_unplaced hunplaced) nofun, d.nodes_release _ _,
        d.edges_release _ _, ?_⟩
      rintro m ⟨⟩
      exact ⟨rfl, d.residents_release n.group n.id⟩

/-- A list as a group is refused whether or not the name has a node. A new name leaves everything
in place; `A` leaves its group and keeps its entry in the index. -/
theorem refusals_of_a_list_as_group :
    let d := (new .defaults).run
      [.node (.str "A") .null [("group", .str "x")], .node (.str "B") .null [("group", .str "x")]]
    let group : List (String × Value) := [("group", .list [.int 1])]
    (d.step (.node (.str "C") .null group)).2.isOk = false ∧
      (d.step (.node (.str "C") .null group)).1 = d ∧
      (d.step (.node (.str "A") .null group)).2.isOk = false ∧
      (d.step (.node (.str "A") .null group)).1 ≠ d ∧
      (d.step (.node (.str "A") .null group)).1.nodes.keys = ["r_a", "r_b"] ∧
      ((d.step (.node (.str "A") .null group)).1.residents (some (.text "x"))).keys = ["r_b"] := by
  intro d group
  let steps : List Step :=
    [.node (.str "A") .null [("group", .str "x")], .node (.str "B") .null [("group", .str "x")]]
  have hnew : (d.step (.node (.str "C") .null group)).2.isOk = false := by decide +kernel
  have hold : (d.step (.node (.str "A") .null group)).2.isOk = false := by decide +kernel
  obtain ⟨hkept, -⟩ := refused_step_keeps_diagram_iff .defaults steps _ hnew
  obtain ⟨hlost, hnodes, -⟩ := refused_step_keeps_diagram_iff .defaults steps _ hold
  have hunplaced : (d.unplaced? (.node (.str "A") .null group)).isSome = true := by decide +kernel
  refine ⟨hnew, hkept.2 rfl, hold, ?_, ?_, by decide +kernel⟩
  · intro heq
    rw [hlost.1 heq] at hunplaced
    cases hunplaced
  · rw [hnodes]
    decide +kernel

/-- Not every refused step leaves the diagram as it was. -/
theorem refused_step_can_lose_a_place :
    ¬ ∀ (options : Options) (steps : List Step) (s : Step),
      (((new options).run steps).step s).2.isOk = false →
        (((new options).run steps).step s).1 = (new options).run steps := by
  intro h
  have heq := h .defaults [.node (.str "a") .null [("group", .str "X")]]
    (.node (.str "a") .null [("group", .list [.int 1])]) (by decide +kernel)
  have hsize := congrArg (fun d => d.groups.size) heq
  revert hsize
  decide +kernel

end HighlightGraph.Diagram
