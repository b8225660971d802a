import HighlightGraph.Proofs.Diagram.Run
import Mathlib.Data.List.Perm.Basic
/-!
# The index and the places agree

A diagram keeps every node twice, in the index and in its place. Three facts tie the two together:
every record is the one that its name makes, a place holds only nodes of the index that belong
there, and every node of the index stands in its place. The first two survive any step, the third
any step that is not refused.
-/

namespace HighlightGraph

structure Node.WellFormed (n : Node) : Prop where
  id_eq : n.id = Identifier.ofNode n.name
  get?_id : n.attributes.get? "id" = some (.str n.id)
  contains_group : n.attributes.contains "group" = false
  contains_label : n.attributes.contains "label" = true
  group_of_missing : n.missing = true → n.group = none

structure Edge.WellFormed (e : Edge) : Prop where
  sourceId_eq : e.sourceId = Identifier.ofNode e.source
  targetId_eq : e.targetId = Identifier.ofNode e.target

/-- What the attributes of a node are: those that were given, but for the group, the identifier and
a label that is not given. -/
theorem Attributes.get?_ofNode (attributes : Attributes) (name : Value) (id k : String) :
    (attributes.ofNode name id).get? k =
      if k = "id" then some (.str id)
      else if k = "label" then some (((attributes.get? "label").filter Value.isGiven).getD name)
      else if k = "group" then none
      else attributes.get? k := by
  have hlabel : (attributes.erase "group").get? "label" = attributes.get? "label" :=
    Table.get?_erase_of_ne attributes (by decide)
  unfold ofNode
  dsimp only
  rw [Table.get?_insert, hlabel]
  split
  · rfl
  · cases hgiven : (attributes.get? "label").any Value.isGiven with
    | true =>
        obtain ⟨v, hv, hv'⟩ := (Option.any_eq_true _ _).1 hgiven
        rw [if_pos rfl, Table.get?_erase, hv, Option.filter_some, if_pos hv']
        by_cases hk : k = "label"
        · rw [if_pos hk, hk, if_neg (by decide), hv]
          rfl
        · rw [if_neg hk]
    | false =>
        have hnone : (attributes.get? "label").filter Value.isGiven = none := by
          rw [Option.filter_eq_none_iff]
          intro v hv hv'
          rw [hv, Option.any_some, hv'] at hgiven
          cases hgiven
        rw [if_neg Bool.false_ne_true, Table.get?_insert, Table.get?_erase, hnone]
        rfl

theorem Node.wellFormed_fresh (name : Value) (attributes : Attributes) {group : Option GroupName}
    {missing : Bool} (h : missing = true → group = none) :
    (Node.fresh name attributes group missing).WellFormed where
  id_eq := rfl
  get?_id := Table.get?_insert_self _ _ _
  contains_group := by
    rw [Table.contains_eq_false_iff]
    exact attributes.get?_ofNode name (Identifier.ofNode name) "group"
  contains_label := by
    rw [Table.contains_iff]
    exact ⟨_, attributes.get?_ofNode name (Identifier.ofNode name) "label"⟩
  group_of_missing := h

namespace Diagram

/-! ## Records -/

/-- Every record is filed under the identifier that its name makes, every group under its name and
with a member. -/
structure WellFormed (d : Diagram) : Prop where
  nodes : ∀ {id n}, d.nodes.get? id = some n → n.id = id ∧ n.WellFormed
  residents : ∀ {home id n}, (d.residents home).get? id = some n → n.id = id ∧ n.WellFormed
  groups : ∀ {k group}, d.groups.get? k = some group →
    group.name.key = k ∧ group.members.isEmpty = false
  edges : ∀ {e}, e ∈ d.edges → e.WellFormed

theorem wellFormed_new (options : Options) : (new options).WellFormed where
  nodes h := by cases h
  residents {home _ _} h := by cases home <;> cases h
  groups h := by cases h
  edges h := by cases h

theorem get?_of_get?_residents_release {d : Diagram} {group : Option GroupName} {id other : String}
    {home : Option Key} {n : Node}
    (h : ((d.release group id).residents home).get? other = some n) :
    (d.residents home).get? other = some n := by
  rw [get?_residents_release] at h
  split at h
  · cases h
  · exact h

theorem WellFormed.release {d : Diagram} (h : d.WellFormed) (group : Option GroupName)
    (id : String) : (d.release group id).WellFormed where
  nodes hn := h.nodes (by rwa [nodes_release] at hn)
  residents hn := h.residents (get?_of_get?_residents_release hn)
  groups {k rest} hk := by
    rw [get?_groups_release] at hk
    split at hk
    · obtain ⟨hmap, hrest⟩ := Option.filter_eq_some_iff.1 hk
      obtain ⟨whole, hwhole, rfl⟩ := Option.map_eq_some_iff.1 hmap
      exact ⟨(h.groups hwhole).1, by simpa using hrest⟩
    · exact h.groups hk
  edges he := h.edges (by rwa [edges_release] at he)

theorem WellFormed.vacate {d : Diagram} (h : d.WellFormed) (id : String) (wanted : Option Value) :
    (d.vacate id wanted).WellFormed := by
  unfold Diagram.vacate
  split
  · split
    · exact h.release _ _
    · exact h
  · exact h

theorem WellFormed.place {d : Diagram} (h : d.WellFormed) {n : Node} (hn : n.WellFormed) :
    (d.place n).WellFormed where
  nodes {id m} hm := by
    rw [nodes_place, Table.get?_insert] at hm
    split at hm
    · next hid =>
      cases hm
      exact ⟨hid.symm, hn⟩
    · exact h.nodes hm
  residents {home id m} hm := by
    rw [get?_residents_place] at hm
    split at hm
    · next hself =>
      cases hm
      exact ⟨hself.2.symm, hn⟩
    · exact h.residents hm
  groups {k group} hk := by
    rw [get?_groups_place] at hk
    split at hk
    · exact h.groups hk
    · next name _ =>
      split at hk
      · next hname =>
        cases hk
        refine ⟨?_, Table.isEmpty_insert _ _ _⟩
        show ((d.groups.get? k).getD ⟨name, .empty⟩).name.key = k
        cases hold : d.groups.get? k with
        | none => exact hname
        | some old => exact (h.groups hold).1
      · exact h.groups hk
  edges he := h.edges (by rwa [edges_place] at he)

theorem WellFormed.register {d : Diagram} (h : d.WellFormed) (name : Value)
    (attributes : Attributes) (missing : Bool) :
    (d.register name attributes missing).1.WellFormed := by
  rcases register_cases d name attributes missing with ⟨group, hgroup, heq⟩ | ⟨v, _, _, _, heq⟩
  · rw [heq]
    apply (h.vacate _ _).place
    apply Node.wellFormed_fresh
    intro hmissing
    rw [if_pos hmissing] at hgroup
    exact Option.map_eq_none_iff.1 hgroup.symm
  · rw [heq]
    exact h.vacate _ _

theorem WellFormed.remove {d : Diagram} (h : d.WellFormed) (id : String) (n : Node) :
    (d.remove id n).WellFormed where
  nodes {other m} hm := by
    rw [nodes_remove, Table.get?_erase] at hm
    split at hm
    · cases hm
    · exact h.nodes hm
  residents hm := by
    rw [residents_remove] at hm
    exact (h.release n.group id).residents hm
  groups hk := (h.release n.group id).groups hk
  edges he := (h.release n.group id).edges he

theorem WellFormed.step {d : Diagram} (h : d.WellFormed) (s : Step) :
    (d.step s).1.WellFormed := by
  apply step_induction (P := WellFormed) (h := h)
  · intro name attributes _
    exact h.register name attributes false
  · intro d name attributes hd
    exact hd.register name attributes true
  · intro d id n _ hd
    exact hd.remove id n
  · intro source target attributes
    refine ⟨h.nodes, ?_, h.groups, ?_⟩
    · intro home id n hn
      rw [residents_with_edges] at hn
      exact h.residents hn
    · intro e he
      rcases List.mem_append.1 he with he | he
      · exact h.edges he
      · rw [List.mem_singleton.1 he]
        exact ⟨rfl, rfl⟩

theorem WellFormed.run {d : Diagram} (h : d.WellFormed) (steps : List Step) :
    (d.run steps).WellFormed :=
  run_induction (fun _ s h => h.step s) h steps

theorem wellFormed_run (options : Options) (steps : List Step) :
    ((new options).run steps).WellFormed :=
  (wellFormed_new options).run steps

/-! ## Places -/

/-- A place holds only nodes of the index, and only such as belong there. -/
def Filed (d : Diagram) : Prop :=
  ∀ home id n, (d.residents home).get? id = some n → d.nodes.get? id = some n ∧ n.home = home

/-- Every node of the index stands in its place. -/
def Placed (d : Diagram) : Prop :=
  ∀ id n, d.nodes.get? id = some n → (d.residents n.home).get? id = some n

def InPlace (d : Diagram) (id : String) : Prop :=
  ∀ n, d.nodes.get? id = some n → (d.residents n.home).get? id = some n

theorem differs_of_ne {a b : Key} (h : a ≠ b) : a.differs b = true := by
  cases a <;> simp_all [Key.differs]

theorem leaves_of_ne {previous group : Option GroupName}
    (h : previous.map GroupName.key ≠ group.map GroupName.key) :
    leaves previous (group.map GroupName.value) = true := by
  cases previous with
  | none =>
      cases group with
      | none => exact absurd rfl h
      | some name => rfl
  | some old =>
      cases group with
      | none => rfl
      | some name =>
          have hne : old.key ≠ name.key := fun e => h (congrArg some e)
          show name.value.key?.all (fun key => old.key.differs key) = true
          rw [name.key_eq]
          exact differs_of_ne hne

theorem leaves_of_refused {v : Value} (h : v.key? = none) (previous : Option GroupName) :
    leaves previous (some v) = true := by
  cases previous with
  | none => rfl
  | some old =>
      show v.key?.all (fun key => old.key.differs key) = true
      rw [h]
      rfl

theorem get?_residents_vacate_of_ne (d : Diagram) {id other : String} (hne : other ≠ id)
    (wanted : Option Value) (home : Option Key) :
    ((d.vacate id wanted).residents home).get? other = (d.residents home).get? other := by
  apply vacate_induction (P := fun e => (e.residents home).get? other = (d.residents home).get? other)
  · rfl
  · intro group
    rw [get?_residents_release, if_neg fun h => hne h.2]

/-- A node has made room in every place that it would leave for the group that is wanted now. -/
theorem Filed.get?_residents_vacate {d : Diagram} (h : d.Filed) {id : String}
    {wanted : Option Value} {home : Option Key}
    (hleaves : ∀ previous : Option GroupName, previous.map GroupName.key = home →
      leaves previous wanted = true) :
    ((d.vacate id wanted).residents home).get? id = none := by
  rw [Option.eq_none_iff_forall_ne_some]
  intro n hn
  unfold vacate at hn
  cases hprevious : d.nodes.get? id with
  | none =>
      simp only [hprevious] at hn
      rw [(h home id n hn).1] at hprevious
      cases hprevious
  | some previous =>
      simp only [hprevious] at hn
      have hresident : (d.residents home).get? id = some n := by
        split at hn
        · exact get?_of_get?_residents_release hn
        · exact hn
      -- Whoever stands there is the indexed node, and the indexed node is the one that leaves.
      obtain ⟨hindexed, hhome⟩ := h home id n hresident
      rw [hindexed] at hprevious
      cases hprevious
      rw [if_pos (hleaves n.group hhome), get?_residents_release,
        if_pos ⟨hhome.symm, rfl⟩] at hn
      cases hn

theorem Filed.register {d : Diagram} (h : d.Filed) (name : Value) (attributes : Attributes)
    (missing : Bool) : (d.register name attributes missing).1.Filed := by
  intro home id n hn
  rcases register_cases d name attributes missing with ⟨group, _, heq⟩ | ⟨v, _, _, hkey, heq⟩
  · rw [heq] at hn ⊢
    rw [get?_residents_place] at hn
    rw [nodes_place, nodes_vacate, Table.get?_insert]
    split at hn
    · next hself =>
      cases hn
      exact ⟨if_pos hself.2, hself.1.symm⟩
    · next hother =>
      by_cases hid : id = Identifier.ofNode name
      · -- The place is not the new one, so the node has left it.
        have hhome : home ≠ group.map GroupName.key := fun e => hother ⟨e, hid⟩
        subst hid
        rw [h.get?_residents_vacate fun previous hprevious =>
          leaves_of_ne fun e => hhome (hprevious.symm.trans e)] at hn
        cases hn
      · rw [get?_residents_vacate_of_ne d hid] at hn
        rw [Node.id_fresh, if_neg hid]
        exact h home id n hn
  · rw [heq] at hn ⊢
    rw [nodes_vacate]
    by_cases hid : id = Identifier.ofNode name
    · subst hid
      rw [h.get?_residents_vacate fun previous _ => leaves_of_refused hkey previous] at hn
      cases hn
    · rw [get?_residents_vacate_of_ne d hid] at hn
      exact h home id n hn

theorem Filed.remove {d : Diagram} (h : d.Filed) {id : String} {n : Node}
    (hn : d.nodes.get? id = some n) : (d.remove id n).Filed := by
  intro home other m hm
  rw [residents_remove] at hm
  obtain ⟨hindexed, hhome⟩ := h home other m (get?_of_get?_residents_release hm)
  rw [nodes_remove, Table.get?_erase]
  split
  · next hother =>
    subst hother
    rw [hindexed] at hn
    cases hn
    rw [get?_residents_release, if_pos ⟨hhome.symm, rfl⟩] at hm
    cases hm
  · exact ⟨hindexed, hhome⟩

theorem Filed.step {d : Diagram} (h : d.Filed) (s : Step) : (d.step s).1.Filed := by
  apply step_induction (P := Filed) (h := h)
  · intro name attributes _
    exact h.register name attributes false
  · intro d name attributes hd
    exact hd.register name attributes true
  · intro d id n hn hd
    exact hd.remove hn
  · intro source target attributes home id n hn
    rw [residents_with_edges] at hn
    exact h home id n hn

theorem filed_run (options : Options) (steps : List Step) : ((new options).run steps).Filed := by
  apply run_induction (P := Filed) (fun _ s h => h.step s)
  intro home id n hn
  cases home <;> cases hn

/-- Registering leaves the nodes of other identifiers in their places and puts its own node in
place, unless it is refused. -/
theorem InPlace.register {d : Diagram} {id : String} {name : Value} {attributes : Attributes}
    {missing : Bool} (h : id ≠ Identifier.ofNode name → d.InPlace id)
    (haccept : id = Identifier.ofNode name → (d.register name attributes missing).2.isOk = true) :
    (d.register name attributes missing).1.InPlace id := by
  intro n hn
  rcases register_cases d name attributes missing with ⟨group, _, heq⟩ | ⟨v, _, _, _, heq⟩
  · rw [heq] at hn ⊢
    rw [nodes_place, nodes_vacate, Table.get?_insert] at hn
    rw [get?_residents_place]
    split at hn
    · next hid =>
      cases hn
      exact if_pos ⟨rfl, hid⟩
    · next hid =>
      rw [Node.id_fresh] at hid
      rw [if_neg fun hself => hid hself.2, get?_residents_vacate_of_ne d hid]
      exact h hid n hn
  · -- The call is refused, so it is a call for another identifier.
    rw [heq] at hn haccept ⊢
    have hid : id ≠ Identifier.ofNode name := fun hid => Bool.noConfusion (haccept hid)
    rw [nodes_vacate] at hn
    rw [get?_residents_vacate_of_ne d hid]
    exact h hid n hn

theorem InPlace.remove {d : Diagram} {id : String} (h : d.InPlace id) (other : String) (n : Node) :
    (d.remove other n).InPlace id := by
  intro m hm
  rw [nodes_remove, Table.get?_erase] at hm
  rw [residents_remove, get?_residents_release]
  split at hm
  · cases hm
  · next hother =>
    rw [if_neg fun hself => hother hself.2]
    exact h m hm

theorem Placed.register {d : Diagram} (h : d.Placed) {name : Value} {attributes : Attributes}
    {missing : Bool} (haccept : (d.register name attributes missing).2.isOk = true) :
    (d.register name attributes missing).1.Placed :=
  fun id => InPlace.register (fun _ => h id) fun _ => haccept

theorem Placed.remove {d : Diagram} (h : d.Placed) (id : String) (n : Node) :
    (d.remove id n).Placed :=
  fun other => InPlace.remove (h other) id n

theorem isOk_register_missing (d : Diagram) (name : Value) (attributes : Attributes) :
    (d.register name attributes true).2.isOk = true := by
  rcases register_cases d name attributes true with ⟨_, _, heq⟩ | ⟨_, hmissing, _⟩
  · rw [heq]
    rfl
  · cases hmissing

theorem Placed.step {d : Diagram} (h : d.Placed) {s : Step} (haccept : (d.step s).2.isOk = true) :
    (d.step s).1.Placed := by
  apply step_induction (P := Placed) (h := h)
  · intro name attributes heq
    exact h.register (heq.trans haccept)
  · intro d name attributes hd
    exact hd.register (isOk_register_missing d name attributes)
  · intro d id n _ hd
    exact hd.remove id n
  · intro source target attributes id n hn
    rw [residents_with_edges]
    exact h id n hn

theorem placed_run (options : Options) {steps : List Step}
    (haccept : (new options).accepts steps = true) : ((new options).run steps).Placed := by
  apply accepted_induction (P := Placed) (fun _ _ haccept h => h.step haccept) _ haccept
  intro id n hn
  cases hn

/-! ## Agreement -/

/-- The index and the places agree. -/
structure Consistent (d : Diagram) : Prop extends d.WellFormed where
  filed : d.Filed
  placed : d.Placed

theorem home_unique {d : Diagram} (h : d.Filed) {home other : Option Key} {id : String}
    (hhome : (d.residents home).contains id = true)
    (hother : (d.residents other).contains id = true) : home = other := by
  obtain ⟨n, hn⟩ := Table.contains_iff.1 hhome
  obtain ⟨m, hm⟩ := Table.contains_iff.1 hother
  obtain ⟨hindexed, rfl⟩ := h home id n hn
  obtain ⟨hindexed', rfl⟩ := h other id m hm
  rw [hindexed] at hindexed'
  cases hindexed'
  rfl

theorem InPlace.existsUnique_home {d : Diagram} {id : String} (h : d.InPlace id) (hd : d.Filed)
    (hid : d.nodes.contains id = true) : ∃! home, (d.residents home).contains id = true := by
  obtain ⟨n, hn⟩ := Table.contains_iff.1 hid
  have hplaced : (d.residents n.home).contains id = true := Table.contains_iff.2 ⟨n, h n hn⟩
  exact ⟨n.home, hplaced, fun home hhome => home_unique hd hhome hplaced⟩

theorem existsUnique_home {d : Diagram} (h : d.Consistent) {id : String}
    (hid : d.nodes.contains id = true) :
    ∃! home, (d.residents home).contains id = true :=
  InPlace.existsUnique_home (h.placed id) h.filed hid

/-- A place holds those nodes of the index that belong there. -/
theorem get?_residents_iff {d : Diagram} (h : d.Consistent) {home : Option Key} {id : String}
    {n : Node} :
    (d.residents home).get? id = some n ↔ d.nodes.get? id = some n ∧ n.home = home := by
  constructor
  · exact h.filed home id n
  · rintro ⟨hn, rfl⟩
    exact h.placed id n hn

/-- A group is there as long as some node of the index belongs there. -/
theorem contains_groups_iff {d : Diagram} (h : d.Consistent) {k : Key} :
    d.groups.contains k = true ↔ ∃ id n, d.nodes.get? id = some n ∧ n.home = some k := by
  simp only [← get?_residents_iff h]
  constructor
  · intro hk
    obtain ⟨group, hgroup⟩ := Table.contains_iff.1 hk
    -- No group is empty, and its members are in the index.
    have hne : group.members.entries ≠ [] := List.isEmpty_eq_false_iff.1 (h.groups hgroup).2
    obtain ⟨⟨id, n⟩, hentry⟩ := List.exists_mem_of_ne_nil _ hne
    exact ⟨id, n, by rw [residents_of_group hgroup]; exact Table.mem_entries_iff.1 hentry⟩
  · rintro ⟨id, n, hn⟩
    rw [residents] at hn
    cases hgroup : d.groups.get? k with
    | none =>
        rw [hgroup] at hn
        cases hn
    | some group => exact Table.contains_iff.2 ⟨group, hgroup⟩

/-- The places of a diagram: its groups in order of creation, then the external nodes. -/
def homes (d : Diagram) : List (Option Key) := d.groups.keys.map some ++ [none]

theorem nodup_homes (d : Diagram) : d.homes.Nodup := by
  have hsome : (d.groups.keys.map some).Nodup :=
    d.groups.nodup_keys.map fun _ _ heq => Option.some.inj heq
  refine List.nodup_append.2 ⟨hsome, List.nodup_singleton none, ?_⟩
  intro home hhome other hother heq
  obtain ⟨k, _, rfl⟩ := List.mem_map.1 hhome
  rw [List.mem_singleton.1 hother] at heq
  cases heq

theorem placedNodes_eq (d : Diagram) :
    d.placedNodes = d.homes.flatMap fun home => (d.residents home).values := by
  have hgroups : d.groups.values.flatMap (·.members.values) =
      (d.groups.keys.map some).flatMap fun home => (d.residents home).values := by
    rw [Table.values, Table.keys, List.map_map, List.flatMap_map, List.flatMap_map]
    apply List.flatMap_congr
    intro entry hentry
    rw [Function.comp_apply, residents_of_group (Table.mem_entries_iff.1 hentry)]
  rw [placedNodes, homes, List.flatMap_append, hgroups, List.flatMap_singleton]
  rfl

theorem mem_homes_of_contains {d : Diagram} {home : Option Key} {id : String}
    (h : (d.residents home).contains id = true) : home ∈ d.homes := by
  cases home with
  | none => exact List.mem_append_right _ (List.mem_singleton_self none)
  | some k =>
      apply List.mem_append_left
      apply List.mem_map_of_mem
      cases hk : d.groups.get? k with
      | none =>
          simp only [residents, hk] at h
          cases h
      | some group => exact List.mem_map.2 ⟨_, Table.mem_entries_iff.2 hk, rfl⟩

theorem mem_placedNodes_iff {d : Diagram} {n : Node} :
    n ∈ d.placedNodes ↔ ∃ home id, (d.residents home).get? id = some n := by
  rw [placedNodes_eq, List.mem_flatMap]
  constructor
  · rintro ⟨home, _, hn⟩
    exact ⟨home, Table.mem_values_iff.1 hn⟩
  · rintro ⟨home, id, hid⟩
    exact ⟨home, mem_homes_of_contains (Table.contains_iff.2 ⟨n, hid⟩),
      Table.mem_values_iff.2 ⟨id, hid⟩⟩

theorem mem_placedNodes_iff_mem_nodes {d : Diagram} (h : d.Consistent) {n : Node} :
    n ∈ d.placedNodes ↔ n ∈ d.nodes.values := by
  rw [mem_placedNodes_iff, Table.mem_values_iff]
  constructor
  · rintro ⟨home, id, hid⟩
    exact ⟨id, (h.filed home id n hid).1⟩
  · rintro ⟨id, hid⟩
    exact ⟨n.home, id, h.placed id n hid⟩

theorem map_id_values {t : Table String Node} (h : ∀ {id n}, t.get? id = some n → n.id = id) :
    t.values.map Node.id = t.keys := by
  rw [Table.values, Table.keys, List.map_map]
  apply List.map_congr_left
  rintro ⟨id, n⟩ hmem
  exact h (Table.mem_entries_iff.1 hmem)

theorem map_id_residents {d : Diagram} (h : d.WellFormed) (home : Option Key) :
    (d.residents home).values.map Node.id = (d.residents home).keys :=
  map_id_values fun hn => (h.residents hn).1

theorem map_id_members (d : Diagram) (h : d.WellFormed) :
    ∀ group ∈ d.groups.values, group.members.values.map Node.id = group.members.keys := by
  intro group hgroup
  obtain ⟨k, hk⟩ := Table.mem_values_iff.1 hgroup
  rw [← residents_of_group hk]
  exact map_id_residents h (some k)

theorem nodup_map_id_placedNodes {d : Diagram} (h : d.Consistent) :
    (d.placedNodes.map Node.id).Nodup := by
  simp only [placedNodes_eq, List.map_flatMap, map_id_residents h.toWellFormed]
  refine List.nodup_flatMap.2 ⟨fun home _ => (d.residents home).nodup_keys, ?_⟩
  apply d.nodup_homes.imp
  intro home other hne id hid hother
  exact hne (home_unique h.filed (Table.contains_iff_mem_keys.2 hid)
    (Table.contains_iff_mem_keys.2 hother))

/-- Going through the groups and then the external nodes meets every node of the index once. -/
theorem perm_placedNodes {d : Diagram} (h : d.Consistent) :
    d.placedNodes.Perm d.nodes.values := by
  have hplaced : d.placedNodes.Nodup := (nodup_map_id_placedNodes h).of_map
  have hindexed : d.nodes.values.Nodup := by
    apply List.Nodup.of_map Node.id
    rw [map_id_values fun hn => (h.nodes hn).1]
    exact d.nodes.nodup_keys
  exact (List.perm_ext_iff_of_nodup hplaced hindexed).2 fun n => mem_placedNodes_iff_mem_nodes h

theorem perm_map_id_placedNodes {d : Diagram} (h : d.Consistent) :
    (d.placedNodes.map Node.id).Perm d.nodes.keys := by
  have hperm := (perm_placedNodes h).map Node.id
  rwa [map_id_values fun hn => (h.nodes hn).1] at hperm

theorem Reached.consistent {d : Diagram} (h : d.Reached) : d.Consistent := by
  obtain ⟨options, steps, haccept, rfl⟩ := h
  exact ⟨wellFormed_run options steps, filed_run options steps, placed_run options haccept⟩

/-- After a run without refusals the index and the places agree: every node of the index stands in
exactly one place, with the same record, and missing nodes are external. -/
theorem index_agrees_with_places {d : Diagram} (h : d.Reached) :
    d.Consistent ∧
      (∀ id, d.nodes.contains id = true → ∃! home, (d.residents home).contains id = true) ∧
      (∀ id n, d.nodes.get? id = some n → n.missing = true → d.external.get? id = some n) ∧
      d.placedNodes.Perm d.nodes.values := by
  have hd := h.consistent
  refine ⟨hd, fun id hid => existsUnique_home hd hid, ?_, perm_placedNodes hd⟩
  intro id n hn hmissing
  have hplaced := hd.placed id n hn
  rw [Node.home, (hd.nodes hn).2.group_of_missing hmissing] at hplaced
  exact hplaced

/-- Groups 1 and true are one group, which `A` leaves for another one. -/
theorem agreement_after_regrouping :
    ∃ d : Diagram, d.Reached ∧ d.nodes.keys = ["r_b", "r_a", "r_z"] ∧
      d.placedNodes.Perm d.nodes.values := by
  let steps : List Step :=
    [.node (.str "C") .null [], .node (.str "B") .null [("group", .int 1)],
      .node (.str "A") .null [("group", .bool true)], .node (.str "a") .null [("group", .str "x")],
      .edge (.str "B") (.str "Z") .null [], .edge (.str "A") (.str "B") .null [], .synthesize,
      .prune]
  have h : ((new .defaults).run steps).Reached := ⟨_, steps, by decide +kernel, rfl⟩
  exact ⟨_, h, by decide +kernel, (index_agrees_with_places h).2.2.2⟩

end Diagram

end HighlightGraph
