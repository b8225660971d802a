import HighlightGraph.Proofs.Diagram.Connect
/-!
# Pruning restricts a diagram

A diagram restricted to some identifiers holds the nodes of these in every table, in the order in
which they stood, and the groups that have such a node. Where the index and the places agree,
removing a node restricts the diagram to the other identifiers; so pruning, which removes one node
after the other, restricts it to the ends of its edges.
-/

namespace HighlightGraph

/-- A group with those members only whose identifier passes a test, if it has any. -/
def Group.restrict? (p : String → Bool) (group : Group) : Option Group :=
  let members := group.members.filterKeys p
  if members.isEmpty then none else some { group with members }

/-! ## Restricting a group -/

theorem Group.restrict?_eq_self {p : String → Bool} {group : Group}
    (hp : ∀ id ∈ group.members.keys, p id = true) (hne : group.members.isEmpty = false) :
    group.restrict? p = some group := by
  rw [Group.restrict?, Table.filterKeys_eq_self hp]
  exact if_neg (by rw [hne]; exact Bool.false_ne_true)

theorem Group.restrict?_congr {p q : String → Bool} {group : Group}
    (h : ∀ id ∈ group.members.keys, p id = q id) : group.restrict? p = group.restrict? q := by
  rw [Group.restrict?, Table.filterKeys_congr h]
  rfl

theorem Group.restrict?_bind (p q : String → Bool) (group : Group) :
    (group.restrict? p).bind (Group.restrict? q) = group.restrict? fun id => q id && p id := by
  have hmembers := Table.filterKeys_filterKeys group.members p q
  unfold Group.restrict?
  dsimp only
  rw [← hmembers]
  split
  · next hempty =>
    -- What is empty stays empty.
    have hnone : ((group.members.filterKeys p).filterKeys q).isEmpty = true := by
      rw [Table.isEmpty, List.isEmpty_iff] at hempty ⊢
      show (group.members.filterKeys p).entries.filter _ = []
      rw [hempty]
      rfl
    rw [if_pos hnone]
    rfl
  · rfl

theorem Group.isSome_restrict?_iff {p : String → Bool} {group : Group} :
    (group.restrict? p).isSome = true ↔ ∃ id ∈ group.members.keys, p id = true := by
  have hkeys := Table.keys_filterKeys group.members p
  have hempty : (group.members.filterKeys p).isEmpty = (group.members.keys.filter p).isEmpty := by
    rw [← hkeys, Table.isEmpty, Table.keys, List.isEmpty_map]
  rw [Group.restrict?, hempty]
  cases hfilter : (group.members.keys.filter p).isEmpty with
  | true => simpa using hfilter
  | false => simpa using hfilter

namespace Diagram

/-- A diagram with those nodes only whose identifier passes a test. -/
def restrict (d : Diagram) (p : String → Bool) : Diagram :=
  { d with
    nodes := d.nodes.filterKeys p
    groups := d.groups.filterMapValues (Group.restrict? p)
    external := d.external.filterKeys p }

def isEnd (d : Diagram) (id : String) : Bool :=
  d.edges.any fun e => id = e.sourceId || id = e.targetId

theorem isEnd_iff {d : Diagram} {id : String} :
    d.isEnd id = true ↔ ∃ e ∈ d.edges, id = e.sourceId ∨ id = e.targetId := by
  simp [isEnd]

theorem contains_ends (d : Diagram) (id : String) :
    (d.ends.map Prod.snd).contains id = d.isEnd id := by
  rw [Bool.eq_iff_iff, List.contains_iff_mem, mem_ends_iff, isEnd_iff]

/-! ## Restricting a diagram -/

theorem entries_groups_restrict (d : Diagram) (p : String → Bool) :
    (d.restrict p).groups.entries =
      (d.groups.entries.map fun entry =>
        (entry.1, { entry.2 with members := entry.2.members.filterKeys p })).filter
          fun entry => !entry.2.members.isEmpty := by
  rw [← List.filterMap_eq_filter, List.filterMap_map]
  apply List.filterMap_congr
  rintro ⟨k, group⟩ _
  unfold Group.restrict?
  dsimp only [Function.comp_apply, Option.guard]
  by_cases hempty : (group.members.filterKeys p).isEmpty = true <;> simp [hempty]

theorem contains_groups_restrict {d : Diagram} {p : String → Bool} {k : Key} :
    (d.restrict p).groups.contains k = true ↔
      ∃ group, d.groups.get? k = some group ∧ ∃ id ∈ group.members.keys, p id = true := by
  have hget : (d.restrict p).groups.get? k = (d.groups.get? k).bind (Group.restrict? p) :=
    Table.get?_filterMapValues _ _ k
  rw [Table.contains, hget]
  cases d.groups.get? k with
  | none => simp
  | some group => simp [Group.isSome_restrict?_iff]

theorem restrict_restrict (d : Diagram) (p q : String → Bool) :
    (d.restrict p).restrict q = d.restrict fun id => q id && p id := by
  simp only [restrict, Table.filterKeys_filterKeys, Table.filterMapValues_filterMapValues,
    Group.restrict?_bind]

/-- A node that leaves its group leaves the rest of it behind, if there is one. -/
theorem release_of_get? {d : Diagram} {name : GroupName} {group : Group}
    (hk : d.groups.get? name.key = some group) (id : String) :
    d.release (some name) id = { d with
      groups := match group.restrict? fun other => other ≠ id with
        | some rest => d.groups.insert name.key rest
        | none => d.groups.erase name.key } := by
  have hmembers : (group.members.filterKeys fun other => other ≠ id) = group.members.erase id := rfl
  simp only [release, hk, Group.restrict?, hmembers]
  split <;> rfl

section Consistent

variable {d : Diagram} (h : d.Consistent)
include h

theorem Consistent.mem_keys_nodes (home : Option Key) {id : String}
    (hid : id ∈ (d.residents home).keys) : id ∈ d.nodes.keys := by
  rw [← Table.contains_iff_mem_keys, Table.contains_iff] at hid ⊢
  obtain ⟨n, hn⟩ := hid
  exact ⟨n, (h.filed home id n hn).1⟩

theorem Consistent.mem_keys_of_group {group : Group} (hgroup : group ∈ d.groups.values)
    {id : String} (hid : id ∈ group.members.keys) : id ∈ d.nodes.keys := by
  obtain ⟨k, hk⟩ := Table.mem_values_iff.1 hgroup
  rw [← residents_of_group hk] at hid
  exact h.mem_keys_nodes (some k) hid

theorem Consistent.restrict_congr {p q : String → Bool} (hpq : ∀ id ∈ d.nodes.keys, p id = q id) :
    d.restrict p = d.restrict q := by
  have hgroups : d.groups.filterMapValues (Group.restrict? p) =
      d.groups.filterMapValues (Group.restrict? q) := by
    apply Table.filterMapValues_congr
    intro group hgroup
    exact Group.restrict?_congr fun id hid => hpq id (h.mem_keys_of_group hgroup hid)
  have hexternal : d.external.filterKeys p = d.external.filterKeys q :=
    Table.filterKeys_congr fun id hid => hpq id (h.mem_keys_nodes none hid)
  rw [restrict, restrict, Table.filterKeys_congr hpq, hgroups, hexternal]

theorem Consistent.restrict_eq_self {p : String → Bool} (hp : ∀ id ∈ d.nodes.keys, p id = true) :
    d.restrict p = d := by
  have hgroups : d.groups.filterMapValues (Group.restrict? p) = d.groups := by
    apply Table.filterMapValues_eq_self
    intro group hgroup
    obtain ⟨k, hk⟩ := Table.mem_values_iff.1 hgroup
    exact Group.restrict?_eq_self (fun id hid => hp id (h.mem_keys_of_group hgroup hid))
      (h.groups hk).2
  have hexternal : d.external.filterKeys p = d.external :=
    Table.filterKeys_eq_self fun id hid => hp id (h.mem_keys_nodes none hid)
  rw [restrict, Table.filterKeys_eq_self hp, hgroups, hexternal]

section Remove

variable {id : String} {n : Node} (hn : d.nodes.get? id = some n)
include hn

/-- The places other than its own do not know a node of the index. -/
theorem Consistent.ne_of_mem_residents (home : Option Key) (hhome : home ≠ n.home) {other : String}
    (hother : other ∈ (d.residents home).keys) : other ≠ id := by
  rintro rfl
  exact hhome (home_unique h.filed (Table.contains_iff_mem_keys.2 hother)
    (Table.contains_iff.2 ⟨n, h.placed _ n hn⟩))

theorem Consistent.restrict?_of_other_home {k : Key} {group : Group}
    (hk : d.groups.get? k = some group) (hhome : some k ≠ n.home) :
    (group.restrict? fun other => other ≠ id) = some group := by
  refine Group.restrict?_eq_self (fun other hother => ?_) (h.groups hk).2
  rw [← residents_of_group hk] at hother
  exact decide_eq_true (h.ne_of_mem_residents hn (some k) hhome hother)

/-- Removing a node of the index takes it out of one place, where it stood, and out of no other. -/
theorem Consistent.remove_eq_restrict : d.remove id n = d.restrict fun other => other ≠ id := by
  cases hname : n.group with
  | none =>
      have hhome : n.home = none := congrArg (Option.map GroupName.key) hname
      have hgroups : d.groups.filterMapValues (Group.restrict? fun other => other ≠ id) =
          d.groups := by
        apply Table.filterMapValues_eq_self
        intro group hmem
        obtain ⟨k, hk⟩ := Table.mem_values_iff.1 hmem
        exact h.restrict?_of_other_home hn hk (by rw [hhome]; exact nofun)
      rw [restrict, hgroups, remove, hname]
      rfl
  | some name =>
      have hhome : n.home = some name.key := congrArg (Option.map GroupName.key) hname
      have hexternal : d.external.filterKeys (fun other => other ≠ id) = d.external := by
        apply Table.filterKeys_eq_self
        intro other hother
        exact decide_eq_true
          (h.ne_of_mem_residents hn none (by rw [hhome]; exact nofun) hother)
      obtain ⟨group, hk⟩ : ∃ group, d.groups.get? name.key = some group := by
        rw [← Table.contains_iff, contains_groups_iff h]
        exact ⟨id, n, hn, hhome⟩
      have hgroups := Table.filterMapValues_of_get? hk fun entry hentry hne =>
        h.restrict?_of_other_home hn (Table.mem_entries_iff.1 hentry)
          (by rw [hhome]; exact fun heq => hne (Option.some.inj heq))
      rw [remove, hname, release_of_get? hk, restrict, hgroups, hexternal]
      cases group.restrict? fun other => other ≠ id <;> rfl

theorem Consistent.remove : (d.remove id n).Consistent :=
  ⟨h.toWellFormed.remove id n, h.filed.remove hn, h.placed.remove id n⟩

end Remove

end Consistent

/-! ## Pruning -/

def removeAll (d : Diagram) (entries : List (String × Node)) : Diagram :=
  entries.foldl (fun d entry => d.remove entry.1 entry.2) d

theorem pruneNodes_eq (connected : List String) (entries : List (String × Node)) (d : Diagram) :
    let isolated := entries.filter fun entry => !connected.contains entry.1
    pruneNodes connected entries d = (d.removeAll isolated, isolated.map Prod.fst) := by
  induction entries generalizing d with
  | nil => rfl
  | cons entry rest ih =>
      obtain ⟨id, n⟩ := entry
      rw [pruneNodes]
      by_cases hid : connected.contains id = true
      · rw [if_pos hid, ih, List.filter_cons_of_neg (by simpa using hid)]
      · rw [if_neg hid, ih, List.filter_cons_of_pos (by simpa using hid)]
        rfl

/-- What is left once nodes are removed one by one is what stood, but for all of them. -/
theorem Consistent.removeAll_eq {d : Diagram} (h : d.Consistent) {entries : List (String × Node)}
    (hnodup : (entries.map Prod.fst).Nodup)
    (hmem : ∀ entry ∈ entries, d.nodes.get? entry.1 = some entry.2) :
    d.removeAll entries = d.restrict fun id => !(entries.map Prod.fst).contains id := by
  induction entries generalizing d with
  | nil => exact (h.restrict_eq_self fun _ _ => rfl).symm
  | cons entry rest ih =>
      rw [List.map_cons, List.nodup_cons] at hnodup
      rw [List.forall_mem_cons] at hmem
      have hrest : ∀ later ∈ rest,
          (d.remove entry.1 entry.2).nodes.get? later.1 = some later.2 := by
        intro later hlater
        have hne : later.1 ≠ entry.1 := by
          intro heq
          exact hnodup.1 (heq ▸ List.mem_map_of_mem hlater)
        rw [nodes_remove, Table.get?_erase_of_ne _ hne]
        exact hmem.2 later hlater
      calc d.removeAll (entry :: rest)
          = (d.remove entry.1 entry.2).removeAll rest := rfl
        _ = (d.restrict fun id => id ≠ entry.1).restrict fun id =>
              !(rest.map Prod.fst).contains id := by
            rw [ih (h.remove hmem.1) hnodup.2 hrest, h.remove_eq_restrict hmem.1]
        _ = d.restrict fun id => !((entry :: rest).map Prod.fst).contains id := by
            rw [restrict_restrict]
            congr 1
            funext id
            by_cases hid : id = entry.1 <;> simp [hid]

/-- Pruning restricts a diagram to the ends of its edges, and tells the identifiers that go. -/
theorem Consistent.prune_eq {d : Diagram} (h : d.Consistent) :
    d.prune = (d.restrict d.isEnd, d.nodes.keys.filter fun id => !d.isEnd id) := by
  let isolated := d.nodes.entries.filter fun entry => !d.isEnd entry.1
  have hids : isolated.map Prod.fst = d.nodes.keys.filter fun id => !d.isEnd id := by
    rw [Table.keys, List.filter_map]
    rfl
  have hnodup : (isolated.map Prod.fst).Nodup := by
    rw [hids]
    exact d.nodes.nodup_keys.filter _
  have hmem : ∀ entry ∈ isolated, d.nodes.get? entry.1 = some entry.2 :=
    fun entry hentry => Table.mem_entries_iff.1 (List.mem_filter.1 hentry).1
  have hprune : d.prune = (d.removeAll isolated, isolated.map Prod.fst) := by
    rw [prune, pruneNodes_eq]
    simp only [contains_ends]
    rfl
  rw [hprune, h.removeAll_eq hnodup hmem, hids]
  congr 1
  apply h.restrict_congr
  intro id hid
  rw [Bool.eq_iff_iff]
  simp [hid]

/-- Pruning in closed form: every table is filtered by the ends of the edges, and the groups of
which nothing is left are gone. What is left is not changed by another pruning. -/
theorem pruning_restricts_to_ends {d : Diagram} (h : d.Reached) :
    d.prune.2 = d.nodes.keys.filter (fun id => !d.isEnd id) ∧
      (∀ id, d.isEnd id = true ↔ ∃ e ∈ d.edges, id = e.sourceId ∨ id = e.targetId) ∧
      d.prune.1.nodes = d.nodes.filterKeys d.isEnd ∧
      d.prune.1.external = d.external.filterKeys d.isEnd ∧
      d.prune.1.groups.entries =
        (d.groups.entries.map fun entry =>
          (entry.1, { entry.2 with members := entry.2.members.filterKeys d.isEnd })).filter
            (fun entry => !entry.2.members.isEmpty) ∧
      (∀ k, d.prune.1.groups.contains k = true ↔
        ∃ group, d.groups.get? k = some group ∧ ∃ id ∈ group.members.keys, d.isEnd id = true) ∧
      d.prune.1.edges = d.edges ∧ d.prune.1.options = d.options ∧
      d.prune.1.prune = (d.prune.1, []) := by
  have hd := h.consistent
  have hafter : (d.restrict d.isEnd).Consistent := by
    have hpruned := (h.step (s := .prune) rfl).consistent
    rwa [step, hd.prune_eq] at hpruned
  -- The edges stay, so what is left is restricted to the same identifiers again.
  have hends : ∀ id ∈ (d.restrict d.isEnd).nodes.keys, d.isEnd id = true := by
    intro id hid
    have hkeys : (d.restrict d.isEnd).nodes.keys = d.nodes.keys.filter d.isEnd :=
      Table.keys_filterKeys _ _
    rw [hkeys] at hid
    exact (List.mem_filter.1 hid).2
  have hagain : (d.restrict d.isEnd).prune = (d.restrict d.isEnd, []) := by
    have hnone : (d.restrict d.isEnd).nodes.keys.filter (fun id => !d.isEnd id) = [] := by
      rw [List.filter_eq_nil_iff]
      intro id hid
      rw [hends id hid]
      exact Bool.false_ne_true
    rw [hafter.prune_eq]
    show ((d.restrict d.isEnd).restrict d.isEnd, _) = _
    rw [hafter.restrict_eq_self hends, ← hnone]
    rfl
  rw [hd.prune_eq]
  exact ⟨rfl, fun _ => isEnd_iff, rfl, rfl, d.entries_groups_restrict _,
    fun _ => contains_groups_restrict, rfl, rfl, hagain⟩

/-- `B` stays in its group without `C`, the group of `D` is gone, and `Z` never had a node. -/
theorem pruning_of_two_groups :
    ∃ d : Diagram, d.Reached ∧ d.nodes.keys = ["r_c", "r_d", "r_b", "r_a", "r_e"] ∧
      d.groups.size = 2 ∧ d.prune.2 = ["r_c", "r_d", "r_e"] ∧
      d.prune.1.nodes = d.nodes.filterKeys d.isEnd ∧
      d.prune.1.external = d.external.filterKeys d.isEnd ∧
      (d.prune.1.residents (some (.text "x"))).keys = ["r_b"] ∧
      d.prune.1.groups.contains (.text "y") = false ∧ d.prune.1.prune = (d.prune.1, []) := by
  let steps : List Step :=
    [.node (.str "C") .null [("group", .str "x")], .node (.str "D") .null [("group", .str "y")],
      .node (.str "B") .null [("group", .str "x")], .node (.str "A") .null [],
      .node (.str "E") .null [], .edge (.str "A") (.str "B") .null [],
      .edge (.str "b") (.str "Z") .null []]
  have h : ((new .defaults).run steps).Reached := ⟨_, steps, by decide +kernel, rfl⟩
  obtain ⟨hremoved, _, hnodes, hexternal, _, _, _, _, hagain⟩ := pruning_restricts_to_ends h
  refine ⟨_, h, by decide +kernel, by decide +kernel, ?_, hnodes, hexternal, by decide +kernel,
    by decide +kernel, hagain⟩
  rw [hremoved]
  decide +kernel

end Diagram

end HighlightGraph
