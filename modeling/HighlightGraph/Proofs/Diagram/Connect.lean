import HighlightGraph.Proofs.Diagram.Consistency
import HighlightGraph.Proofs.Options
/-!
# Synthesis and pruning

What the two steps that match nodes to edges come to. Synthesis places one missing node for every
end that has none, in the order of the edges; pruning filters the index by the ends. A missing node
that is placed is the end of an edge, so pruning passes it by, and the two steps commute.
-/

namespace HighlightGraph.Diagram

def placeAll (d : Diagram) (ns : List Node) : Diagram := ns.foldl place d

/-- Those of a list of ends that have no node, each identifier once and under the name with which
it comes first. -/
def absentEnds (known : String → Bool) : List (Value × String) → List (Value × String)
  | [] => []
  | (name, id) :: rest =>
    if known id then absentEnds known rest
    else (name, id) :: absentEnds (fun other => known other || other == id) rest

def missingNodes (d : Diagram) (attributes : Attributes) (ends : List (Value × String)) :
    List Node :=
  (absentEnds d.nodes.contains ends).map fun entry => .fresh entry.1 attributes none true

/-! ## Absent ends -/

theorem absentEnds_congr {known other : String → Bool} {ends : List (Value × String)}
    (h : ∀ entry ∈ ends, known entry.2 = other entry.2) :
    absentEnds known ends = absentEnds other ends := by
  induction ends generalizing known other with
  | nil => rfl
  | cons entry rest ih =>
      obtain ⟨name, id⟩ := entry
      rw [List.forall_mem_cons] at h
      rw [absentEnds, absentEnds, h.1, ih h.2]
      congr 2
      apply ih
      intro entry hentry
      rw [h.2 entry hentry]

theorem mem_of_mem_absentEnds {known : String → Bool} {ends : List (Value × String)}
    {entry : Value × String} (h : entry ∈ absentEnds known ends) : entry ∈ ends := by
  induction ends generalizing known with
  | nil => cases h
  | cons head rest ih =>
      obtain ⟨name, id⟩ := head
      rw [absentEnds] at h
      split at h
      · exact List.mem_cons_of_mem _ (ih h)
      · rcases List.mem_cons.1 h with rfl | h
        · exact List.mem_cons_self
        · exact List.mem_cons_of_mem _ (ih h)

theorem mem_map_snd_absentEnds {known : String → Bool} {ends : List (Value × String)}
    {id : String} :
    id ∈ (absentEnds known ends).map Prod.snd ↔ id ∈ ends.map Prod.snd ∧ known id = false := by
  induction ends generalizing known with
  | nil => simp [absentEnds]
  | cons head rest ih =>
      obtain ⟨name, other⟩ := head
      rw [absentEnds]
      split
      · next hknown =>
        rw [ih, List.map_cons, List.mem_cons]
        by_cases hid : id = other
        · simp [hid, hknown]
        · simp [hid]
      · next hknown =>
        rw [List.map_cons, List.mem_cons, ih, List.map_cons, List.mem_cons]
        by_cases hid : id = other
        · simp [hid, hknown]
        · simp [hid]

/-! ## Synthesis -/

section PlaceAll

variable (d : Diagram) (ns : List Node)

@[simp] theorem edges_placeAll : (d.placeAll ns).edges = d.edges := by
  induction ns generalizing d with
  | nil => rfl
  | cons n rest ih => exact (ih (d.place n)).trans (d.edges_place n)

theorem ends_placeAll : (d.placeAll ns).ends = d.ends := by
  rw [ends, ends, edges_placeAll]

theorem contains_nodes_placeAll (id : String) :
    (d.placeAll ns).nodes.contains id = (d.nodes.contains id || (ns.map Node.id).contains id) := by
  induction ns generalizing d with
  | nil => simp [placeAll]
  | cons n rest ih =>
      have hplace : (d.place n).nodes.contains id = (d.nodes.contains id || id == n.id) := by
        rw [nodes_place, Table.contains, Table.get?_insert, Table.contains]
        by_cases h : id = n.id <;> simp [h]
      show ((d.place n).placeAll rest).nodes.contains id = _
      rw [ih, hplace, List.map_cons, List.contains_cons, Bool.or_assoc]

end PlaceAll

theorem WellFormed.mem_ends {d : Diagram} (h : d.WellFormed) {entry : Value × String}
    (hentry : entry ∈ d.ends) : entry.2 = Identifier.ofNode entry.1 := by
  obtain ⟨e, he, hmem⟩ := List.mem_flatMap.1 hentry
  simp only [Edge.ends, List.mem_cons, List.not_mem_nil, or_false] at hmem
  rcases hmem with rfl | rfl
  · exact (h.edges he).sourceId_eq
  · exact (h.edges he).targetId_eq

theorem register_missing_of_absent {d : Diagram} {name : Value}
    (h : d.nodes.contains (Identifier.ofNode name) = false) (attributes : Attributes) :
    d.register name attributes true =
      (d.place (.fresh name attributes none true), .ok (.fresh name attributes none true)) := by
  rw [Table.contains_eq_false_iff] at h
  simp only [register, h]
  rfl

theorem WellFormed.map_id_missingNodes {d : Diagram} (h : d.WellFormed) (attributes : Attributes) :
    (d.missingNodes attributes d.ends).map Node.id =
      (absentEnds d.nodes.contains d.ends).map Prod.snd := by
  rw [missingNodes, List.map_map]
  apply List.map_congr_left
  intro entry hentry
  exact (h.mem_ends (mem_of_mem_absentEnds hentry)).symm

theorem WellFormed.mem_map_id_missingNodes {d : Diagram} (h : d.WellFormed)
    {attributes : Attributes} {id : String} :
    id ∈ (d.missingNodes attributes d.ends).map Node.id ↔
      id ∈ d.ends.map Prod.snd ∧ d.nodes.contains id = false := by
  rw [h.map_id_missingNodes, mem_map_snd_absentEnds]

theorem group_of_mem_missingNodes {d : Diagram} {attributes : Attributes}
    {ends : List (Value × String)} {n : Node} (hn : n ∈ d.missingNodes attributes ends) :
    n.group = none := by
  obtain ⟨entry, _, rfl⟩ := List.mem_map.1 hn
  rfl

/-- Synthesis with readable attributes places the missing nodes and returns them. -/
theorem synthesizeEnds_of_recognized {d : Diagram} {attributes : Attributes}
    (hattributes : Attributes.recognized (d.options.value .missingNode) = .ok attributes)
    {ends : List (Value × String)}
    (hnamed : ∀ entry ∈ ends, entry.2 = Identifier.ofNode entry.1) :
    synthesizeEnds ends d =
      (d.placeAll (d.missingNodes attributes ends), .ok (d.missingNodes attributes ends)) := by
  induction ends generalizing d with
  | nil => rfl
  | cons entry rest ih =>
      obtain ⟨name, id⟩ := entry
      rw [List.forall_mem_cons] at hnamed
      obtain ⟨rfl, hrest⟩ : id = Identifier.ofNode name ∧ _ := hnamed
      rw [synthesizeEnds, missingNodes, absentEnds]
      split
      · exact ih hattributes hrest
      · next habsent =>
        rw [Bool.not_eq_true] at habsent
        let n : Node := .fresh name attributes none true
        have hknown : (d.place n).nodes.contains =
            fun other => d.nodes.contains other || other == Identifier.ofNode name := by
          funext other
          rw [← Bool.or_false (other == _)]
          exact d.contains_nodes_placeAll [n] other
        have htail := ih (d := d.place n) (by rwa [options_place]) hrest
        rw [missingNodes, hknown] at htail
        simp only [hattributes, register_missing_of_absent habsent]
        rw [htail]
        rfl

theorem WellFormed.synthesize_eq {d : Diagram} (h : d.WellFormed) {attributes : Attributes}
    (hattributes : Attributes.recognized (d.options.value .missingNode) = .ok attributes) :
    d.synthesize =
      (d.placeAll (d.missingNodes attributes d.ends), .ok (d.missingNodes attributes d.ends)) :=
  synthesizeEnds_of_recognized hattributes fun _ => h.mem_ends

/-- Synthesis with unreadable attributes is refused at the first end without a node. -/
theorem synthesizeEnds_of_unrecognized {d : Diagram} {e : Misfit}
    (hattributes : Attributes.recognized (d.options.value .missingNode) = .error e)
    (ends : List (Value × String)) :
    synthesizeEnds ends d =
      (d, if (absentEnds d.nodes.contains ends).isEmpty then .ok [] else .error e) := by
  induction ends with
  | nil => rfl
  | cons entry rest ih =>
      obtain ⟨name, id⟩ := entry
      rw [synthesizeEnds, absentEnds]
      split
      · exact ih
      · simp only [hattributes]
        rfl

/-- Synthesis that is not refused places missing nodes, also where no end lacks a node and the
attributes are not looked at. -/
theorem WellFormed.synthesize_eq_ok {d after : Diagram} (h : d.WellFormed) {created : List Node}
    (hsynthesize : d.synthesize = (after, .ok created)) :
    ∃ attributes, created = d.missingNodes attributes d.ends ∧ after = d.placeAll created := by
  cases hattributes : Attributes.recognized (d.options.value .missingNode) with
  | ok attributes =>
      rw [h.synthesize_eq hattributes] at hsynthesize
      cases hsynthesize
      exact ⟨attributes, rfl, rfl⟩
  | error e =>
      rw [synthesize, synthesizeEnds_of_unrecognized hattributes] at hsynthesize
      split at hsynthesize
      · next hnone =>
        cases hsynthesize
        refine ⟨.empty, ?_, rfl⟩
        rw [missingNodes, List.isEmpty_iff.1 hnone]
        rfl
      · cases hsynthesize

theorem WellFormed.mem_created_iff {d after : Diagram} (h : d.WellFormed) {created : List Node}
    (hsynthesize : d.synthesize = (after, .ok created)) {id : String} :
    id ∈ created.map Node.id ↔ id ∈ d.ends.map Prod.snd ∧ d.nodes.contains id = false := by
  obtain ⟨attributes, rfl, -⟩ := h.synthesize_eq_ok hsynthesize
  exact h.mem_map_id_missingNodes

theorem WellFormed.contains_nodes_synthesize {d after : Diagram} (h : d.WellFormed)
    {created : List Node} (hsynthesize : d.synthesize = (after, .ok created)) (id : String) :
    after.nodes.contains id = (d.nodes.contains id || (created.map Node.id).contains id) := by
  obtain ⟨attributes, -, rfl⟩ := h.synthesize_eq_ok hsynthesize
  exact d.contains_nodes_placeAll created id

theorem WellFormed.contains_of_synthesize {d after : Diagram} (h : d.WellFormed)
    {created : List Node} (hsynthesize : d.synthesize = (after, .ok created)) {id : String}
    (hid : id ∈ d.ends.map Prod.snd) : after.nodes.contains id = true := by
  rw [h.contains_nodes_synthesize hsynthesize, Bool.or_eq_true, List.contains_iff_mem,
    h.mem_created_iff hsynthesize]
  cases hknown : d.nodes.contains id with
  | false => exact Or.inr ⟨hid, rfl⟩
  | true => exact Or.inl rfl

/-- Whether synthesis finds nothing to add. -/
def Settled (d : Diagram) : Prop := d.synthesize = (d, .ok [])

theorem synthesizeEnds_of_known {d : Diagram} {ends : List (Value × String)}
    (h : ∀ entry ∈ ends, d.nodes.contains entry.2 = true) :
    synthesizeEnds ends d = (d, .ok []) := by
  induction ends with
  | nil => rfl
  | cons entry rest ih =>
      rw [List.forall_mem_cons] at h
      rw [synthesizeEnds, if_pos h.1, ih h.2]

/-- Synthesis leaves nothing to add to another one. -/
theorem WellFormed.settled_of_synthesize {d after : Diagram} (h : d.WellFormed)
    {created : List Node} (hsynthesize : d.synthesize = (after, .ok created)) : after.Settled := by
  apply synthesizeEnds_of_known
  intro entry hentry
  have hends : after.ends = d.ends := by
    obtain ⟨_, _, rfl⟩ := h.synthesize_eq_ok hsynthesize
    exact d.ends_placeAll created
  rw [hends] at hentry
  exact h.contains_of_synthesize hsynthesize (List.mem_map_of_mem hentry)

/-! ## Pruning -/

theorem nodes_pruneNodes (connected : List String) (entries : List (String × Node))
    (d : Diagram) :
    (pruneNodes connected entries d).1.nodes =
      d.nodes.filterKeys fun id =>
        connected.contains id || !(entries.map Prod.fst).contains id := by
  induction entries generalizing d with
  | nil => exact (Table.filterKeys_eq_self fun _ _ => by simp).symm
  | cons entry rest ih =>
      obtain ⟨id, n⟩ := entry
      rw [pruneNodes]
      split
      · next hid =>
        rw [ih]
        apply Table.filterKeys_congr
        intro other _
        rw [List.map_cons, List.contains_cons]
        by_cases hother : other = id
        · rw [hother, hid, Bool.true_or, Bool.true_or]
        · rw [beq_false_of_ne hother, Bool.false_or]
      · next hid =>
        rw [Bool.not_eq_true] at hid
        dsimp only
        -- Erasing is a filter as well, and two filters are one.
        rw [ih, nodes_remove, Table.erase, Table.filterKeys_filterKeys]
        apply Table.filterKeys_congr
        intro other _
        rw [List.map_cons, List.contains_cons]
        by_cases hother : other = id
        · rw [hother, hid]
          simp
        · rw [beq_false_of_ne hother]
          simp [hother]

/-- Pruning leaves the nodes of the index that are ends of edges. -/
theorem nodes_prune (d : Diagram) :
    d.prune.1.nodes = d.nodes.filterKeys (d.ends.map Prod.snd).contains := by
  rw [prune, nodes_pruneNodes]
  apply Table.filterKeys_congr
  intro id hid
  have hmem : (d.nodes.entries.map Prod.fst).contains id = true := List.contains_iff_mem.2 hid
  rw [hmem, Bool.not_true, Bool.or_false]

theorem prune_induction {P : Diagram → Prop}
    (hremove : ∀ d id n, d.nodes.get? id = some n → P d → P (d.remove id n)) {d : Diagram}
    (h : P d) : P d.prune.1 :=
  pruneNodes_induction hremove _ d.nodes.nodup_keys (fun _ he => Table.mem_entries_iff.1 he) h

theorem options_prune (d : Diagram) : d.prune.1.options = d.options := by
  apply prune_induction (P := fun e => e.options = d.options) _ rfl
  intro e id n _ he
  exact (e.options_release n.group id).trans he

theorem edges_prune (d : Diagram) : d.prune.1.edges = d.edges := by
  apply prune_induction (P := fun e => e.edges = d.edges) _ rfl
  intro e id n _ he
  exact (e.edges_release n.group id).trans he

theorem ends_prune (d : Diagram) : d.prune.1.ends = d.ends := by
  rw [ends, ends, edges_prune]

theorem contains_nodes_prune {d : Diagram} {id : String} :
    d.prune.1.nodes.contains id = true ↔
      d.nodes.contains id = true ∧ id ∈ d.ends.map Prod.snd := by
  rw [Table.contains_iff_mem_keys, nodes_prune, Table.keys_filterKeys, List.mem_filter,
    List.contains_iff_mem, Table.contains_iff_mem_keys]

/-! ## Both -/

theorem place_of_external {n : Node} (hn : n.group = none) (d : Diagram) : d.place n =
    { d with nodes := d.nodes.insert n.id n, external := d.external.insert n.id n } := by
  rw [place, hn]

theorem remove_place {n : Node} (hn : n.group = none) {id : String} (hid : n.id ≠ id)
    (d : Diagram) (m : Node) : (d.place n).remove id m = (d.remove id m).place n := by
  rw [place_of_external hn, place_of_external hn]
  unfold remove release
  cases m.group with
  | none => simp only [Table.erase_insert _ hid]
  | some name =>
      dsimp only
      cases d.groups.get? name.key with
      | none => simp only [Table.erase_insert _ hid]
      | some group =>
          dsimp only
          split <;> simp only [Table.erase_insert _ hid]

theorem pruneNodes_place {n : Node} (hn : n.group = none) {connected : List String}
    (hid : connected.contains n.id = true) (entries : List (String × Node)) (d : Diagram) :
    pruneNodes connected entries (d.place n) =
      ((pruneNodes connected entries d).1.place n, (pruneNodes connected entries d).2) := by
  induction entries generalizing d with
  | nil => rfl
  | cons entry rest ih =>
      obtain ⟨other, m⟩ := entry
      rw [pruneNodes, pruneNodes]
      split
      · exact ih d
      · next hother =>
        have hne : n.id ≠ other := by
          rintro rfl
          exact hother hid
        dsimp only
        rw [remove_place hn hne, ih]

theorem pruneNodes_store {connected : List String} {id : String}
    (hid : connected.contains id = true) (n : Node) (entries : List (String × Node))
    (d : Diagram) :
    pruneNodes connected (Table.store id n entries) d = pruneNodes connected entries d := by
  induction entries generalizing d with
  -- Storing puts the entry in the place of its key or last; pruning passes by in both.
  | nil => simp only [Table.store, pruneNodes, hid, if_true]
  | cons entry rest ih =>
      obtain ⟨other, m⟩ := entry
      rw [Table.store]
      split
      · next hother =>
        rw [pruneNodes, pruneNodes, hother, if_pos hid, if_pos hid]
      · rw [pruneNodes, pruneNodes, ih, ih]

/-- Pruning passes by a node that is the end of an edge and stands in no group. -/
theorem prune_place {d : Diagram} {n : Node} (hn : n.group = none)
    (hid : n.id ∈ d.ends.map Prod.snd) :
    (d.place n).prune = (d.prune.1.place n, d.prune.2) := by
  have hconnected : (d.ends.map Prod.snd).contains n.id = true := List.contains_iff_mem.2 hid
  have hends : (d.place n).ends = d.ends := d.ends_placeAll [n]
  have hentries : (d.place n).nodes.entries = Table.store n.id n d.nodes.entries := by
    rw [nodes_place]
    rfl
  rw [prune, hends, hentries, pruneNodes_store hconnected, pruneNodes_place hn hconnected]
  rfl

theorem prune_placeAll {d : Diagram} {ns : List Node} (hgroup : ∀ n ∈ ns, n.group = none)
    (hid : ∀ n ∈ ns, n.id ∈ d.ends.map Prod.snd) :
    (d.placeAll ns).prune = (d.prune.1.placeAll ns, d.prune.2) := by
  induction ns generalizing d with
  | nil => rfl
  | cons n rest ih =>
      rw [List.forall_mem_cons] at hgroup hid
      have hends : (d.place n).ends = d.ends := d.ends_placeAll [n]
      show ((d.place n).placeAll rest).prune = ((d.prune.1.place n).placeAll rest, d.prune.2)
      rw [ih hgroup.2 (by rw [hends]; exact hid.2), prune_place hgroup.1 hid.1]

theorem missingNodes_prune (d : Diagram) (attributes : Attributes) :
    d.prune.1.missingNodes attributes d.prune.1.ends = d.missingNodes attributes d.ends := by
  rw [missingNodes, missingNodes, ends_prune]
  congr 1
  -- Pruning takes away no end, so the same ends lack a node before and after it.
  apply absentEnds_congr
  intro entry hentry
  rw [Bool.eq_iff_iff, contains_nodes_prune]
  exact and_iff_left (List.mem_map_of_mem hentry)

theorem WellFormed.prune_placeAll_missingNodes {d : Diagram} (h : d.WellFormed)
    (attributes : Attributes) :
    (d.placeAll (d.missingNodes attributes d.ends)).prune =
      (d.prune.1.placeAll (d.missingNodes attributes d.ends), d.prune.2) := by
  apply prune_placeAll
  · exact fun n => group_of_mem_missingNodes
  · intro n hn
    exact (h.mem_map_id_missingNodes.1 (List.mem_map_of_mem hn)).1

theorem WellFormed.contains_nodes_placeAll_prune {d : Diagram} (h : d.WellFormed)
    {attributes : Attributes} {id : String} :
    (d.prune.1.placeAll (d.missingNodes attributes d.ends)).nodes.contains id = true ↔
      id ∈ d.ends.map Prod.snd := by
  rw [contains_nodes_placeAll, Bool.or_eq_true, List.contains_iff_mem, contains_nodes_prune,
    h.mem_map_id_missingNodes, and_comm, ← and_or_left]
  apply and_iff_left
  cases d.nodes.contains id
  · exact Or.inr rfl
  · exact Or.inl rfl

theorem mem_ends_iff {d : Diagram} {id : String} :
    id ∈ d.ends.map Prod.snd ↔ ∃ e ∈ d.edges, id = e.sourceId ∨ id = e.targetId := by
  rw [ends, List.map_flatMap, List.mem_flatMap]
  simp only [Edge.ends, List.map_cons, List.map_nil, List.mem_cons, List.not_mem_nil, or_false]

/-! ## Synthesis and pruning in any order -/

section InAnyOrder

theorem contains_groups_of_release {d : Diagram} {group : Option GroupName} {id : String} {k : Key}
    (h : (d.release group id).groups.contains k = true) : d.groups.contains k = true := by
  rw [Table.contains_iff] at h ⊢
  obtain ⟨rest, hrest⟩ := h
  rw [get?_groups_release] at hrest
  split at hrest
  · obtain ⟨hmap, -⟩ := Option.filter_eq_some_iff.1 hrest
    obtain ⟨whole, hwhole, -⟩ := Option.map_eq_some_iff.1 hmap
    exact ⟨whole, hwhole⟩
  · exact ⟨rest, hrest⟩

/-- A missing node stands in no group. -/
theorem contains_groups_of_register {d : Diagram} {name : Value} {attributes : Attributes} {k : Key}
    (h : (d.register name attributes true).1.groups.contains k = true) :
    d.groups.contains k = true := by
  rcases d.register_cases name attributes true with ⟨group, hgroup, heq⟩ | ⟨_, hmissing, _⟩
  · cases group with
    | some group => cases hgroup
    | none =>
        rw [heq, Table.contains, get?_groups_place] at h
        exact vacate_induction (P := fun e => e.groups.contains k = true → d.groups.contains k = true)
          _ _ id (fun _ => contains_groups_of_release) h
  · cases hmissing

variable {d : Diagram} {steps : List Step}

theorem contains_groups_of_run (hsteps : ∀ s ∈ steps, s = .synthesize ∨ s = .prune) {k : Key}
    (h : (d.run steps).groups.contains k = true) : d.groups.contains k = true := by
  induction steps generalizing d with
  | nil => exact h
  | cons s rest ih =>
      have hstep := ih (fun t ht => hsteps t (List.mem_cons_of_mem _ ht)) h
      let FromHere : Diagram → Prop := fun e =>
        e.groups.contains k = true → d.groups.contains k = true
      rcases hsteps s List.mem_cons_self with rfl | rfl
      · exact synthesizeEnds_induction (P := FromHere)
          (fun e _ _ he hk => he (contains_groups_of_register hk)) d.ends id hstep
      · exact pruneNodes_induction (P := FromHere)
          (fun e _ _ _ he hk => he (contains_groups_of_release hk)) _ d.nodes.nodup_keys
          (fun _ he => Table.mem_entries_iff.1 he) id hstep

theorem WellFormed.accepts_synthesis_and_pruning (h : d.WellFormed) (hreadable : d.options.Readable)
    (hsteps : ∀ s ∈ steps, s = .synthesize ∨ s = .prune) : d.accepts steps = true := by
  induction steps generalizing d with
  | nil => rfl
  | cons s rest ih =>
      have hs : (d.step s).2.isOk = true := by
        rcases hsteps s List.mem_cons_self with rfl | rfl
        · have hkind : Setting.missingNode.kind = .attributes := rfl
          obtain ⟨attributes, hattributes⟩ := hreadable.recognized hkind
          rw [Diagram.step, h.synthesize_eq hattributes]
          rfl
        · rfl
      have hrest := ih (h.step s) (by rwa [options_step])
        (fun t ht => hsteps t (List.mem_cons_of_mem _ ht))
      rw [Diagram.accepts, hs, hrest, Bool.and_self]

end InAnyOrder

/-- Synthesis and pruning in either order leave the same diagram, return the same nodes and
identifiers, and make the index hold exactly the ends of the edges. -/
theorem synthesis_commutes_with_pruning {given : Value} {options : Options}
    (hoptions : Options.ofValue given = .ok options) (steps : List Step) :
    ∃ synthesized pruned both created removed,
      ((new options).run steps).synthesize = (synthesized, .ok created) ∧
      synthesized.prune = (both, removed) ∧
      ((new options).run steps).prune = (pruned, removed) ∧
      pruned.synthesize = (both, .ok created) ∧
      both.edges = ((new options).run steps).edges ∧
      ∀ id, id ∈ both.nodes.keys ↔ ∃ e ∈ both.edges, id = e.sourceId ∨ id = e.targetId := by
  have hoptions' := options_run options steps
  have h : ((new options).run steps).WellFormed := wellFormed_run options steps
  generalize (new options).run steps = d at hoptions' h
  obtain ⟨attributes, hattributes⟩ : ∃ attributes,
      Attributes.recognized (d.options.value .missingNode) = .ok attributes := by
    rw [hoptions']
    exact (Options.readable_ofValue hoptions).recognized rfl
  have hpruned : d.prune.1.WellFormed := h.step .prune
  have hlater := hpruned.synthesize_eq (by rwa [options_prune])
  rw [missingNodes_prune] at hlater
  refine ⟨_, _, _, _, _, h.synthesize_eq hattributes, h.prune_placeAll_missingNodes attributes, rfl,
    hlater, ?_, ?_⟩
  · rw [edges_placeAll, edges_prune]
  · intro id
    rw [← mem_ends_iff, ends_placeAll, ends_prune, ← Table.contains_iff_mem_keys,
      h.contains_nodes_placeAll_prune]

/-- `B` is missing and mentioned three times; `C` has no edge, and its group goes with it. -/
theorem commuting_around_a_self_loop :
    let options := Options.defaults.set .missingNode (.ofFields [("group", .str "x")])
    let d := (new options).run
      [.node (.str "C") .null [("group", .str "x")], .node (.str "A") .null [],
        .edge (.str "A") (.str "B") .null [], .edge (.str "b") (.str "B") .null []]
    Options.ofValue (.map [(.str "missingNode", .ofFields [("group", .str "x")])]) = .ok options ∧
      d.nodes.keys = ["r_c", "r_a"] ∧ d.groups.size = 1 ∧
      d.synthesize.1.prune.1 = d.prune.1.synthesize.1 ∧
      d.prune.1.synthesize.1.nodes.keys = ["r_a", "r_b"] ∧
      d.prune.1.synthesize.1.groups.size = 0 := by
  intro options d
  have hoptions : Options.ofValue
      (.map [(.str "missingNode", .ofFields [("group", .str "x")])]) = .ok options := rfl
  obtain ⟨_, _, _, _, _, hsynthesize, hboth, hprune, hlater, _, _⟩ :=
    synthesis_commutes_with_pruning hoptions
      [.node (.str "C") .null [("group", .str "x")], .node (.str "A") .null [],
        .edge (.str "A") (.str "B") .null [], .edge (.str "b") (.str "B") .null []]
  have hcommute : d.synthesize.1.prune.1 = d.prune.1.synthesize.1 := by
    rw [hsynthesize, hboth, hprune, hlater]
  exact ⟨hoptions, by decide +kernel, by decide +kernel, hcommute, by decide +kernel,
    by decide +kernel⟩

end HighlightGraph.Diagram
