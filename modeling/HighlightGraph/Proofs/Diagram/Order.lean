import HighlightGraph.Proofs.Diagram.LastCall
import HighlightGraph.Proofs.Diagram.Placeholders
import HighlightGraph.Proofs.Diagram.Restriction
/-!
# Steps keep the order of what they do not touch

The order in which nodes and groups are written is that of the tables, and no step reshuffles a
table: it takes entries out, and puts new ones behind those that were there. That a node which
changes its place leaves one table and enters another makes no difference to the other entries of
the two; neither does the group that is dropped, or made, with it.
-/

namespace HighlightGraph

/-! ## Lists -/

section Lists

variable {α : Type} [DecidableEq α]

/-- What stands in two lists, an earlier and a later one, stands in the same order in both, and
before what is new in the later one. -/
structure OrderKept (before after : List α) : Prop where
  order : ∀ x ∈ before, ∀ y ∈ before, x ∈ after → y ∈ after →
    (after.idxOf x < after.idxOf y ↔ before.idxOf x < before.idxOf y)
  fresh : ∀ x ∈ before, x ∈ after → ∀ y ∈ after, y ∉ before → after.idxOf x < after.idxOf y

theorem idxOf_lt_idxOf_iff_of_sublist {kept before : List α} (h : kept.Sublist before)
    (hnodup : before.Nodup) {x y : α} (hx : x ∈ kept) (hy : y ∈ kept) :
    kept.idxOf x < kept.idxOf y ↔ before.idxOf x < before.idxOf y := by
  induction h with
  | slnil => cases hx
  | cons a hrest ih =>
      -- What is dropped is neither of the two, and shifts both.
      rw [List.nodup_cons] at hnodup
      have hxa : a ≠ x := fun heq => hnodup.1 (heq ▸ hrest.subset hx)
      have hya : a ≠ y := fun heq => hnodup.1 (heq ▸ hrest.subset hy)
      rw [List.idxOf_cons_ne _ hxa, List.idxOf_cons_ne _ hya, Nat.succ_lt_succ_iff]
      exact ih hnodup.2 hx hy
  | cons_cons a _ ih =>
      rw [List.nodup_cons] at hnodup
      rw [List.mem_cons] at hx hy
      by_cases hya : a = y
      · rw [List.idxOf_cons_eq _ hya, List.idxOf_cons_eq _ hya]
        simp only [Nat.not_lt_zero]
      · by_cases hxa : a = x
        · rw [List.idxOf_cons_eq _ hxa, List.idxOf_cons_ne _ hya, List.idxOf_cons_eq _ hxa,
            List.idxOf_cons_ne _ hya]
          exact iff_of_true (Nat.succ_pos _) (Nat.succ_pos _)
        · rw [List.idxOf_cons_ne _ hxa, List.idxOf_cons_ne _ hya, List.idxOf_cons_ne _ hxa,
            List.idxOf_cons_ne _ hya, Nat.succ_lt_succ_iff, Nat.succ_lt_succ_iff]
          exact ih hnodup.2 (hx.resolve_left (Ne.symm hxa)) (hy.resolve_left (Ne.symm hya))

namespace OrderKept

variable {kept before after : List α}

/-- A list of which some entries are dropped and to which new ones are appended. -/
theorem append (h : kept.Sublist before) (hnodup : before.Nodup) {added : List α}
    (hadded : ∀ y ∈ added, y ∉ before) : OrderKept before (kept ++ added) := by
  have hkept : ∀ x ∈ before, x ∈ kept ++ added → x ∈ kept := by
    intro x hx hmem
    exact (List.mem_append.1 hmem).resolve_right fun hnew => hadded x hnew hx
  constructor
  · intro x hx y hy hx' hy'
    have hxkept := hkept x hx hx'
    have hykept := hkept y hy hy'
    rw [List.idxOf_append_of_mem hxkept, List.idxOf_append_of_mem hykept]
    exact idxOf_lt_idxOf_iff_of_sublist h hnodup hxkept hykept
  · intro x hx hx' y _ hnew
    have hxkept := hkept x hx hx'
    have hynew : y ∉ kept := fun hmem => hnew (h.subset hmem)
    have hlt := List.idxOf_lt_length_of_mem hxkept
    rw [List.idxOf_append_of_mem hxkept, List.idxOf_append_of_notMem hynew]
    omega

theorem of_sublist (h : after.Sublist before) (hnodup : before.Nodup) :
    OrderKept before after := by
  rw [← List.append_nil after]
  exact append h hnodup nofun

theorem refl (hnodup : before.Nodup) : OrderKept before before :=
  of_sublist (List.Sublist.refl before) hnodup

end OrderKept

/-- Storing under a key in what is left of a table keeps its order, unless the key was among what
is gone. -/
theorem Table.orderKept_insert {β : Type} {t u : Table α β} (h : u.keys.Sublist t.keys) {k : α}
    (hk : k ∈ t.keys → k ∈ u.keys) (b : β) : OrderKept t.keys (u.insert k b).keys := by
  rw [Table.keys_insert]
  split
  · exact .of_sublist h t.nodup_keys
  · next hnew =>
    apply OrderKept.append h t.nodup_keys
    intro y hy
    rw [List.mem_singleton.1 hy]
    exact mt hk hnew

end Lists

namespace Diagram

structure TablesKept (d after : Diagram) : Prop where
  residents : ∀ home, OrderKept (d.residents home).keys (after.residents home).keys
  nodes : OrderKept d.nodes.keys after.nodes.keys
  groups : OrderKept d.groups.keys after.groups.keys

/-! ## Leaving a place -/

theorem differs_self {k : Key} (h : ∀ mark, k ≠ .nan mark) : k.differs k = false := by
  cases k with
  | nan mark => exact absurd rfl (h mark)
  | _ => simp [Key.differs]

/-- A node does not leave the place that is asked for, unless that is a group that is named by a
not-a-number. -/
theorem not_leaves_of_eq {previous group : Option GroupName}
    (h : previous.map GroupName.key = group.map GroupName.key)
    (hnan : ∀ mark, group.map GroupName.key ≠ some (.nan mark)) :
    leaves previous (group.map GroupName.value) = false := by
  cases previous with
  | none =>
      cases group with
      | none => rfl
      | some name => cases h
  | some old =>
      cases group with
      | none => cases h
      | some name =>
          have hkey : old.key = name.key := Option.some.inj h
          show name.value.key?.all (fun key => old.key.differs key) = false
          rw [name.key_eq, hkey]
          exact differs_self fun mark hmark => hnan mark (congrArg some hmark)

section Release

variable (d : Diagram) (group : Option GroupName) (id : String)

theorem keys_residents_release_sublist (home : Option Key) :
    ((d.release group id).residents home).keys.Sublist (d.residents home).keys := by
  rw [residents_release]
  split
  · rw [Table.keys_erase]
    exact List.filter_sublist
  · exact List.Sublist.refl _

theorem keys_groups_release_sublist :
    (d.release group id).groups.keys.Sublist d.groups.keys := by
  cases group with
  | none => exact List.Sublist.refl _
  | some name =>
      cases hk : d.groups.get? name.key with
      | none =>
          simp only [release, hk]
          exact List.Sublist.refl _
      | some group =>
          have hmem : name.key ∈ d.groups.keys :=
            Table.contains_iff_mem_keys.1 (Table.contains_iff.2 ⟨group, hk⟩)
          rw [release_of_get? hk]
          cases group.restrict? fun other => other ≠ id with
          | some rest =>
              show (d.groups.insert name.key rest).keys.Sublist _
              rw [Table.keys_insert, if_pos hmem]
          | none =>
              show (d.groups.erase name.key).keys.Sublist _
              rw [Table.keys_erase]
              exact List.filter_sublist

theorem mem_keys_groups_release {k : Key} (hk : k ∈ d.groups.keys)
    (hne : group.map GroupName.key ≠ some k) : k ∈ (d.release group id).groups.keys := by
  rw [← Table.contains_iff_mem_keys, Table.contains] at hk ⊢
  rwa [get?_groups_release, if_neg hne]

end Release

/-! ## Registering -/

theorem groups_place (d : Diagram) (n : Node) :
    (d.place n).groups = match n.group with
      | none => d.groups
      | some name =>
        d.groups.insert name.key (((d.groups.get? name.key).getD ⟨name, .empty⟩).with n) := by
  unfold place
  cases n.group <;> rfl

section Move

variable {d : Diagram} {n : Node} (hnan : ∀ mark, n.home ≠ some (.nan mark))
include hnan

/-- Room is made for a node, if at all, in a place other than its own. -/
theorem vacate_cases : d.vacate n.id (n.group.map GroupName.value) = d ∨
    ∃ previous, d.nodes.get? n.id = some previous ∧ previous.home ≠ n.home ∧
      d.vacate n.id (n.group.map GroupName.value) = d.release previous.group n.id := by
  unfold vacate
  split
  · next previous hprevious =>
    split
    · next hleaves =>
      refine Or.inr ⟨previous, hprevious, fun hhome => ?_, rfl⟩
      rw [not_leaves_of_eq hhome hnan] at hleaves
      cases hleaves
    · exact Or.inl rfl
  · exact Or.inl rfl

/-- Moving a node keeps the order of all tables: what it leaves loses an entry, what it enters gets
one at the end, and its own place, where it stood there before, stays as it is. -/
theorem Filed.tablesKept_place (h : d.Filed) :
    d.TablesKept ((d.vacate n.id (n.group.map GroupName.value)).place n) := by
  let vacated := d.vacate n.id (n.group.map GroupName.value)
  have hcases : vacated = d ∨ ∃ previous, d.nodes.get? n.id = some previous ∧
      previous.home ≠ n.home ∧ vacated = d.release previous.group n.id := vacate_cases hnan
  refine ⟨fun home => ?_, ?_, ?_⟩
  · have hsublist : (vacated.residents home).keys.Sublist (d.residents home).keys :=
      vacate_induction (P := fun e => (e.residents home).keys.Sublist (d.residents home).keys)
        _ _ (List.Sublist.refl _) fun group => d.keys_residents_release_sublist group n.id home
    rw [residents_place]
    split
    · next hhome =>
      apply Table.orderKept_insert hsublist
      intro hmem
      -- Whoever stands there is the indexed node, which would have left another place.
      rcases hcases with heq | ⟨previous, hprevious, hne, -⟩
      · rwa [heq]
      · obtain ⟨resident, hresident⟩ := Table.contains_iff.1 (Table.contains_iff_mem_keys.2 hmem)
        obtain ⟨hindexed, hplace⟩ := h home n.id resident hresident
        rw [hprevious] at hindexed
        cases hindexed
        exact absurd (hplace.trans hhome) hne
    · exact .of_sublist hsublist (d.residents home).nodup_keys
  · rw [nodes_place, nodes_vacate]
    exact Table.orderKept_insert (List.Sublist.refl _) id n
  · have hsublist : vacated.groups.keys.Sublist d.groups.keys :=
      vacate_induction (P := fun e => e.groups.keys.Sublist d.groups.keys) _ _
        (List.Sublist.refl _) fun group => d.keys_groups_release_sublist group n.id
    rw [groups_place]
    split
    · exact .of_sublist hsublist d.groups.nodup_keys
    · next name hname =>
      apply Table.orderKept_insert hsublist
      intro hmem
      rcases hcases with heq | ⟨previous, -, hne, heq⟩
      · rwa [heq]
      · rw [heq]
        apply mem_keys_groups_release _ _ _ hmem
        rwa [Node.home, Node.home, hname] at hne

end Move

/-! ## Synthesis and pruning -/

theorem residents_restrict (d : Diagram) (p : String → Bool) (home : Option Key) :
    (d.restrict p).residents home = (d.residents home).filterKeys p := by
  cases home with
  | none => rfl
  | some k =>
      have hget : (d.restrict p).groups.get? k = (d.groups.get? k).bind (Group.restrict? p) :=
        Table.get?_filterMapValues _ _ k
      rw [residents, residents, hget]
      cases d.groups.get? k with
      | none => rfl
      | some group =>
          rw [Option.bind_some, Group.restrict?]
          split
          · next hempty => exact (Table.ext (List.isEmpty_iff.1 hempty)).symm
          · rfl

theorem tablesKept_restrict (d : Diagram) (p : String → Bool) : d.TablesKept (d.restrict p) where
  residents home := by
    rw [residents_restrict, Table.keys_filterKeys]
    exact .of_sublist List.filter_sublist (d.residents home).nodup_keys
  nodes := by
    show OrderKept _ (d.nodes.filterKeys p).keys
    rw [Table.keys_filterKeys]
    exact .of_sublist List.filter_sublist d.nodes.nodup_keys
  groups := .of_sublist (Table.map_fst_filterMap_sublist _ _) d.groups.nodup_keys

/-- Synthesis appends the nodes that it creates to the index and to the external nodes. -/
theorem Consistent.entries_synthesize {d after : Diagram} (h : d.Consistent) {created : List Node}
    (hsynthesize : d.synthesize = (after, .ok created)) :
    after.nodes.entries = d.nodes.entries ++ created.map (fun n => (n.id, n)) ∧
      after.external.entries = d.external.entries ++ created.map (fun n => (n.id, n)) ∧
      after.groups = d.groups ∧ after.edges = d.edges ∧
      ∀ id ∈ created.map Node.id, d.nodes.contains id = false := by
  have habsent : ∀ id ∈ created.map Node.id, d.nodes.contains id = false :=
    fun id hid => ((h.toWellFormed.mem_created_iff hsynthesize).1 hid).2
  obtain ⟨attributes, rfl, rfl⟩ := h.toWellFormed.synthesize_eq_ok hsynthesize
  have hnodup : ((d.missingNodes attributes d.ends).map Node.id).Nodup := by
    rw [h.toWellFormed.map_id_missingNodes]
    exact nodup_map_snd_absentEnds _ _
  obtain ⟨hnodes, hexternal, hgroups⟩ :=
    h.entries_placeAll (fun _ => group_of_mem_missingNodes) hnodup habsent
  exact ⟨hnodes, hexternal, hgroups, edges_placeAll _ _, habsent⟩

theorem Consistent.tablesKept_synthesize {d after : Diagram} (h : d.Consistent)
    {created : List Node} (hsynthesize : d.synthesize = (after, .ok created)) :
    d.TablesKept after := by
  obtain ⟨hnodes, hexternal, hgroups, -, habsent⟩ := h.entries_synthesize hsynthesize
  have hids : (created.map fun n => (n.id, n)).map Prod.fst = created.map Node.id := List.map_map
  -- What is appended is not in the index, so it is in no table.
  have happend : ∀ t u : Table String Node, (∀ id ∈ t.keys, id ∈ d.nodes.keys) →
      u.entries = t.entries ++ created.map (fun n => (n.id, n)) → OrderKept t.keys u.keys := by
    intro t u ht hu
    rw [Table.keys, Table.keys, hu, List.map_append, hids]
    apply OrderKept.append (List.Sublist.refl _) t.nodup_keys
    intro id hid hmem
    have hknown := Table.contains_iff_mem_keys.2 (ht id hmem)
    rw [habsent id hid] at hknown
    cases hknown
  refine ⟨fun home => ?_, happend _ _ (fun _ => id) hnodes, ?_⟩
  · cases home with
    | none => exact happend _ _ (fun _ => h.mem_keys_nodes none) hexternal
    | some k =>
        have hsame : after.residents (some k) = d.residents (some k) := by
          rw [residents, residents, hgroups]
        rw [hsame]
        exact .refl (d.residents (some k)).nodup_keys
  · rw [hgroups]
    exact .refl d.groups.nodup_keys

/-! ## Steps -/

theorem exists_node_of_step {d : Diagram} {name attributes : Value}
    {extra : List (String × Value)}
    (haccept : (d.step (.node name attributes extra)).2.isOk = true) :
    ∃ n : Node, n.id = Identifier.ofNode name ∧
      n.home = (Step.node name attributes extra).home ∧
      (d.step (.node name attributes extra)).1 =
        (d.vacate n.id (n.group.map GroupName.value)).place n := by
  simp only [step, addNode, Step.home] at haccept ⊢
  cases hcombine : Attributes.combine Node.reservedNames attributes extra with
  | error e =>
      rw [hcombine] at haccept
      cases haccept
  | ok combined =>
      rw [Step.wanted?_node hcombine]
      simp only [hcombine] at haccept ⊢
      rcases register_cases d name combined false with ⟨group, hgroup, heq⟩ | ⟨_, _, _, _, heq⟩
      · rw [heq]
        refine ⟨.fresh name combined group false, rfl, ?_, rfl⟩
        show group.map GroupName.key = combined.wantedGroup?.bind Value.key?
        rw [show combined.wantedGroup? = group.map GroupName.value from hgroup]
        cases group with
        | none => rfl
        | some name => exact name.key_eq.symm
      · rw [heq] at haccept
        cases haccept

theorem exists_edge_of_step {d : Diagram} {source target attributes : Value}
    {extra : List (String × Value)}
    (haccept : (d.step (.edge source target attributes extra)).2.isOk = true) :
    ∃ e : Edge, (d.step (.edge source target attributes extra)).1 =
      { d with edges := d.edges ++ [e] } := by
  simp only [step, addEdge] at haccept ⊢
  cases hcombine : Attributes.combine Edge.reservedNames attributes extra with
  | error e =>
      rw [hcombine] at haccept
      cases haccept
  | ok combined => exact ⟨_, rfl⟩

theorem exists_created_of_step {d : Diagram} (haccept : (d.step .synthesize).2.isOk = true) :
    ∃ created, d.synthesize = ((d.step .synthesize).1, .ok created) := by
  have hok : d.synthesize.2.isOk = true := (isOk_map _ _).symm.trans haccept
  obtain ⟨created, hcreated⟩ := exists_ok_of_isOk hok
  exact ⟨created, Prod.ext rfl hcreated⟩

section Step

variable {d : Diagram} (h : d.Consistent) {s : Step} (haccept : (d.step s).2.isOk = true)
include h haccept

theorem Consistent.tablesKept_step (hnan : ∀ mark, s.home ≠ some (.nan mark)) :
    d.TablesKept (d.step s).1 := by
  cases s with
  | node name attributes extra =>
      obtain ⟨n, -, hhome, heq⟩ := exists_node_of_step haccept
      rw [heq]
      rw [← hhome] at hnan
      exact h.filed.tablesKept_place hnan
  | edge source target attributes extra =>
      obtain ⟨e, heq⟩ := exists_edge_of_step haccept
      rw [heq]
      refine ⟨fun home => ?_, .refl d.nodes.nodup_keys, .refl d.groups.nodup_keys⟩
      rw [residents_with_edges]
      exact .refl (d.residents home).nodup_keys
  | synthesize =>
      obtain ⟨created, hsynthesize⟩ := exists_created_of_step haccept
      exact h.tablesKept_synthesize hsynthesize
  | prune =>
      rw [step, h.prune_eq]
      exact d.tablesKept_restrict d.isEnd

theorem Consistent.edges_step : d.edges <+: (d.step s).1.edges := by
  cases s with
  | node name attributes extra =>
      obtain ⟨n, -, -, heq⟩ := exists_node_of_step haccept
      exact ⟨[], by rw [List.append_nil, heq, edges_place, edges_vacate]⟩
  | edge source target attributes extra =>
      obtain ⟨e, heq⟩ := exists_edge_of_step haccept
      exact ⟨[e], by rw [heq]⟩
  | synthesize =>
      obtain ⟨created, hsynthesize⟩ := exists_created_of_step haccept
      exact ⟨[], by rw [List.append_nil, (h.entries_synthesize hsynthesize).2.2.2.1]⟩
  | prune => exact ⟨[], by rw [List.append_nil, step, edges_prune]⟩

/-- A record that is not registered anew stays as it is, or is pruned for being no end of an
edge. -/
theorem Consistent.get?_nodes_step {id : String} (hid : s.id? ≠ some id) {n : Node}
    (hn : d.nodes.get? id = some n) :
    (d.step s).1.nodes.get? id = some n ∨
      s = .prune ∧ d.isEnd id = false ∧ (d.step s).1.nodes.get? id = none := by
  cases s with
  | node name attributes extra =>
      obtain ⟨m, hm, -, heq⟩ := exists_node_of_step haccept
      have hne : id ≠ m.id := fun e => hid (congrArg some (e.trans hm).symm)
      rw [heq, nodes_place, nodes_vacate, Table.get?_insert_of_ne _ hne]
      exact Or.inl hn
  | edge source target attributes extra =>
      obtain ⟨e, heq⟩ := exists_edge_of_step haccept
      rw [heq]
      exact Or.inl hn
  | synthesize =>
      obtain ⟨created, hsynthesize⟩ := exists_created_of_step haccept
      left
      rw [← Table.mem_entries_iff, (h.entries_synthesize hsynthesize).1]
      exact List.mem_append_left _ (Table.mem_entries_iff.2 hn)
  | prune =>
      have hnodes : (d.step .prune).1.nodes = d.nodes.filterKeys d.isEnd := by
        rw [step, h.prune_eq]
        rfl
      rw [hnodes, Table.get?_filterKeys]
      cases d.isEnd id with
      | true => exact Or.inl hn
      | false => exact Or.inr ⟨rfl, rfl, rfl⟩

end Step

/-- A step that is not refused keeps the order of what it does not touch, in every place, in the
index and among the groups, and puts new entries last. It leaves every record as it is but that of
the node it registers and those it prunes, and only appends to the edges. -/
theorem steps_keep_order {d : Diagram} (h : d.Reached) {s : Step}
    (haccept : (d.step s).2.isOk = true) (hnan : ∀ mark, s.home ≠ some (.nan mark)) :
    (∀ home, OrderKept (d.residents home).keys ((d.step s).1.residents home).keys) ∧
      OrderKept d.nodes.keys (d.step s).1.nodes.keys ∧
      OrderKept d.groups.keys (d.step s).1.groups.keys ∧
      (∀ id n, s.id? ≠ some id → d.nodes.get? id = some n →
        ((d.step s).1.nodes.get? id = some n ∧
          ((d.step s).1.residents n.home).get? id = some n) ∨
        s = .prune ∧ d.isEnd id = false ∧ (d.step s).1.nodes.get? id = none) ∧
      d.edges <+: (d.step s).1.edges := by
  have hd := h.consistent
  have hkept := hd.tablesKept_step haccept hnan
  refine ⟨hkept.residents, hkept.nodes, hkept.groups, ?_, hd.edges_step haccept⟩
  intro id n hid hn
  rcases hd.get?_nodes_step haccept hid hn with hsame | hpruned
  · exact Or.inl ⟨hsame, (h.step haccept).consistent.placed id n hsame⟩
  · exact Or.inr hpruned

/-- `A`, registered again, leaves the first group empty and makes a new one, between nodes that stay
where they are. -/
theorem order_kept_by_a_move :
    ∃ (d : Diagram) (s : Step), d.Reached ∧ (d.step s).2.isOk = true ∧
      d.nodes.keys = ["r_b", "r_a", "r_c"] ∧ (d.step s).1.nodes.keys = ["r_b", "r_a", "r_c"] ∧
      d.groups.keys = [.text "x", .text "y"] ∧
      (d.step s).1.groups.keys = [.text "y", .number 1] ∧
      (∀ home, OrderKept (d.residents home).keys ((d.step s).1.residents home).keys) ∧
      OrderKept d.nodes.keys (d.step s).1.nodes.keys ∧
      OrderKept d.groups.keys (d.step s).1.groups.keys ∧
      (∀ id n, s.id? ≠ some id → d.nodes.get? id = some n →
        ((d.step s).1.nodes.get? id = some n ∧
          ((d.step s).1.residents n.home).get? id = some n) ∨
        s = .prune ∧ d.isEnd id = false ∧ (d.step s).1.nodes.get? id = none) ∧
      d.edges <+: (d.step s).1.edges := by
  let steps : List Step :=
    [.node (.str "B") .null [], .node (.str "A") .null [("group", .str "x")],
      .node (.str "C") .null [("group", .str "y")], .edge (.str "A") (.str "B") .null []]
  let d := (new .defaults).run steps
  let s : Step := .node (.str "a") .null [("group", .bool true)]
  have h : d.Reached := ⟨_, steps, by decide +kernel, rfl⟩
  have haccept : (d.step s).2.isOk = true := by decide +kernel
  have hhome : s.home = some (.number 1) := by decide +kernel
  have hnan : ∀ mark, s.home ≠ some (.nan mark) := by
    intro mark
    rw [hhome]
    exact nofun
  refine ⟨d, s, h, haccept, ?_, ?_, ?_, ?_, steps_keep_order h haccept hnan⟩
  all_goals decide +kernel

end Diagram

end HighlightGraph
