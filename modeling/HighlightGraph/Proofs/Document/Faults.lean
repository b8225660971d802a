import HighlightGraph.Proofs.Document.Calls
/-!
# The first fault of a document

A document stands for the calls of its entries, in order. Where an entry stands for no call, or a
section is no list, loading tells the first such place, and the message begins with its name.
-/

namespace HighlightGraph.Document

def sectionEntries : Value → List Value
  | .list entries => entries
  | _ => []

theorem sectionEntries_of_listSection {v : Value} {fault : DocumentFault} {entries : List Value}
    (h : listSection v fault = .ok entries) : sectionEntries v = entries := by
  rcases listSection_eq_ok_iff.1 h with ⟨rfl, rfl⟩ | rfl <;> rfl

theorem exists_listSection_iff {v : Value} {fault : DocumentFault} :
    (∃ entries, listSection v fault = .ok entries) ↔ ∃ entries, Holds .list v entries := by
  constructor
  · rintro ⟨entries, h⟩
    rcases listSection_eq_ok_iff.1 h with ⟨rfl, -⟩ | rfl
    · exact ⟨none, .nothing⟩
    · exact ⟨some entries, .given entries⟩
  · rintro ⟨entries, h⟩
    cases h with
    | nothing => exact ⟨[], rfl⟩
    | given entries => exact ⟨entries, rfl⟩

theorem not_holds_of_listSection {v : Value} {fault : DocumentFault} {cause : LoadError}
    (h : listSection v fault = .error cause) : ¬ ∃ entries, Holds .list v entries := by
  intro hlist
  obtain ⟨entries, hok⟩ := exists_listSection_iff.2 hlist
  cases h.symm.trans hok

/-- Whether a place of a document is at fault: a section is no list, or an entry stands for no
call. -/
def FaultyAt (sections : List (Value × Value)) : Place → Prop
  | .nodesSection => ¬ ∃ entries, Holds .list (field sections "nodes") entries
  | .edgesSection => ¬ ∃ entries, Holds .list (field sections "edges") entries
  | .node i => ∃ entry, (sectionEntries (field sections "nodes"))[i]? = some entry ∧
      ¬ ∃ call, NodeCall entry call
  | .edge i => ∃ entry, (sectionEntries (field sections "edges"))[i]? = some entry ∧
      ¬ ∃ call, EdgeCall entry call

def Place.Precedes : Place → Place → Prop
  | .nodesSection, .nodesSection => False
  | .nodesSection, _ => True
  | .edgesSection, .node _ => True
  | .edgesSection, .edge _ => True
  | .node i, .node j => i < j
  | .node _, .edge _ => True
  | .edge i, .edge j => i < j
  | _, _ => False

def Place.name : Place → String
  | .nodesSection => "'nodes'"
  | .edgesSection => "'edges'"
  | .node i => s!"nodes[{i}]"
  | .edge i => s!"edges[{i}]"

/-- The message of a fault begins with the name of its place. -/
theorem name_isPrefix_message {fault : DocumentFault} {place : Place}
    (h : fault.place? = some place) : place.name.toList <+: fault.message.toList := by
  cases fault with
  | notAnObject | optionsSection => cases h
  | nodesSection | edgesSection =>
      cases h
      decide
  | nodeEntry i | nodeGroup i | nodeAttributes i | edgeEntry i | edgeEndMissing i | edgeEndNoText i
  | edgeAttributes i =>
      cases h
      simp only [DocumentFault.message, Place.name, String.toList_append, List.append_assoc,
        List.prefix_append_right_inj]
      decide

/-- The calls that a document stands for: those of its nodes, then those of its edges. -/
def StandsFor (sections : List (Value × Value)) (calls : List Step) : Prop :=
  ∃ nodeCalls edgeCalls, calls = nodeCalls ++ edgeCalls ∧
    List.Forall₂ NodeCall (sectionEntries (field sections "nodes")) nodeCalls ∧
    List.Forall₂ EdgeCall (sectionEntries (field sections "edges")) edgeCalls

theorem ofDocument_map {sections : List (Value × Value)} {options : Options}
    (h : Document.options (field sections "options") = .ok options) :
    Diagram.ofDocument (.map sections) = (do
      let nodes ← listSection (field sections "nodes") .nodesSection
      let edges ← listSection (field sections "edges") .edgesSection
      let d ← loadEntries loadNode 0 nodes (.new options)
      loadEntries loadEdge 0 edges d) := by
  rw [Diagram.ofDocument, h]
  rfl

theorem followsCalls_nodes {sections : List (Value × Value)}
    (hkeyed : (Value.map sections).Keyed)
    (hgroups : ∀ entry ∈ sectionEntries (field sections "nodes"), ¬ CarriesUnfitGroup entry)
    {nodes : List Value} (h : listSection (field sections "nodes") .nodesSection = .ok nodes) :
    ∀ entry ∈ nodes, FollowsCalls loadNode NodeCall .node entry := by
  rw [sectionEntries_of_listSection h] at hgroups
  exact fun entry hentry => followsCalls_loadNode
    (keyed_listSection hkeyed h entry hentry) (hgroups entry hentry)

theorem followsCalls_edges {sections : List (Value × Value)}
    (hkeyed : (Value.map sections).Keyed) {edges : List Value}
    (h : listSection (field sections "edges") .edgesSection = .ok edges) :
    ∀ entry ∈ edges, FollowsCalls loadEdge EdgeCall .edge entry :=
  fun entry hentry =>
    followsCalls_loadEdge (keyed_listSection hkeyed h entry hentry)

theorem StandsFor.not_faultyAt_entry {sections : List (Value × Value)} {calls : List Step}
    (h : StandsFor sections calls) (i : Nat) :
    ¬ FaultyAt sections (.node i) ∧ ¬ FaultyAt sections (.edge i) := by
  obtain ⟨nodeCalls, edgeCalls, -, hnodes, hedges⟩ := h
  constructor
  · rintro ⟨entry, hentry, hnone⟩
    exact hnone (exists_call_of_mem hnodes entry (List.mem_of_getElem? hentry))
  · rintro ⟨entry, hentry, hnone⟩
    exact hnone (exists_call_of_mem hedges entry (List.mem_of_getElem? hentry))

section Sections

variable {sections : List (Value × Value)} {options : Options}
  (hkeyed : (Value.map sections).Keyed)
  (hoptions : Document.options (field sections "options") = .ok options)
  (hgroups : ∀ entry ∈ sectionEntries (field sections "nodes"), ¬ CarriesUnfitGroup entry)
include hkeyed hoptions hgroups

/-- A document that is loaded is the run of the calls that it stands for, and nowhere at fault. -/
theorem exists_calls_of_ofDocument {d : Diagram}
    (h : Diagram.ofDocument (.map sections) = .ok d) :
    (∀ place, ¬ FaultyAt sections place) ∧
      ∃ calls, StandsFor sections calls ∧ (Diagram.new options).accepts calls = true ∧
        (Diagram.new options).run calls = d := by
  rw [ofDocument_map hoptions] at h
  obtain ⟨nodes, hnodes, h⟩ := bind_eq_ok h
  obtain ⟨edges, hedges, h⟩ := bind_eq_ok h
  obtain ⟨filled, hfilled, h⟩ := bind_eq_ok h
  obtain ⟨nodeCalls, hnodeCalls, hacceptsNodes, rfl⟩ :=
    exists_calls_of_loadEntries (followsCalls_nodes hkeyed hgroups hnodes) hfilled
  obtain ⟨edgeCalls, hedgeCalls, hacceptsEdges, rfl⟩ :=
    exists_calls_of_loadEntries (followsCalls_edges hkeyed hedges) h
  rw [← sectionEntries_of_listSection hnodes] at hnodeCalls
  rw [← sectionEntries_of_listSection hedges] at hedgeCalls
  have hstands : StandsFor sections (nodeCalls ++ edgeCalls) :=
    ⟨nodeCalls, edgeCalls, rfl, hnodeCalls, hedgeCalls⟩
  refine ⟨fun place => ?_, _, hstands, ?_, Diagram.run_append _ _ _⟩
  · cases place with
    | nodesSection => exact not_not.2 (exists_listSection_iff.1 ⟨nodes, hnodes⟩)
    | edgesSection => exact not_not.2 (exists_listSection_iff.1 ⟨edges, hedges⟩)
    | node i => exact (hstands.not_faultyAt_entry i).1
    | edge i => exact (hstands.not_faultyAt_entry i).2
  · rw [Diagram.accepts_append, hacceptsNodes, hacceptsEdges, Bool.and_self]

/-- A document that is not loaded is at fault, and its first fault is told. -/
theorem firstFault_of_ofDocument {cause : LoadError}
    (h : Diagram.ofDocument (.map sections) = .error cause) :
    ∃ fault place, cause = .fault fault ∧ fault.place? = some place ∧ FaultyAt sections place ∧
      ∀ other, other.Precedes place → ¬ FaultyAt sections other := by
  rw [ofDocument_map hoptions] at h
  rcases bind_eq_error h with hnone | ⟨nodes, hnodes, h⟩
  · obtain ⟨fault, rfl, hplace⟩ := faultsAt_listSection _ rfl cause hnone
    refine ⟨fault, .nodesSection, rfl, hplace, not_holds_of_listSection hnone, ?_⟩
    rintro (_ | _ | _ | _) ⟨⟩
  have hnodesSection : ¬ FaultyAt sections .nodesSection :=
    not_not.2 (exists_listSection_iff.1 ⟨nodes, hnodes⟩)
  rcases bind_eq_error h with hnone | ⟨edges, hedges, h⟩
  · obtain ⟨fault, rfl, hplace⟩ := faultsAt_listSection _ rfl cause hnone
    refine ⟨fault, .edgesSection, rfl, hplace, not_holds_of_listSection hnone, ?_⟩
    rintro (_ | _ | _ | _) ⟨⟩
    exact hnodesSection
  have hedgesSection : ¬ FaultyAt sections .edgesSection :=
    not_not.2 (exists_listSection_iff.1 ⟨edges, hedges⟩)
  rcases bind_eq_error h with hnone | ⟨filled, hfilled, h⟩
  · obtain ⟨i, fault, rfl, hplace, hfaulty, hbefore⟩ :=
      exists_fault_of_loadEntries (followsCalls_nodes hkeyed hgroups hnodes) hnone
    rw [← sectionEntries_of_listSection hnodes] at hfaulty hbefore
    refine ⟨fault, .node i, rfl, hplace, hfaulty, ?_⟩
    rintro (_ | _ | j | _) hother
    · exact hnodesSection
    · exact hedgesSection
    · rintro ⟨entry, hentry, hnone⟩
      exact hnone (hbefore j hother entry hentry)
    · cases hother
  · obtain ⟨nodeCalls, hnodeCalls, -⟩ :=
      exists_calls_of_loadEntries (followsCalls_nodes hkeyed hgroups hnodes) hfilled
    obtain ⟨i, fault, rfl, hplace, hfaulty, hbefore⟩ :=
      exists_fault_of_loadEntries (followsCalls_edges hkeyed hedges) h
    rw [← sectionEntries_of_listSection hnodes] at hnodeCalls
    rw [← sectionEntries_of_listSection hedges] at hfaulty hbefore
    refine ⟨fault, .edge i, rfl, hplace, hfaulty, ?_⟩
    rintro (_ | _ | j | j) hother
    · exact hnodesSection
    · exact hedgesSection
    · rintro ⟨entry, hentry, hnone⟩
      exact hnone (exists_call_of_mem hnodeCalls entry (List.mem_of_getElem? hentry))
    · rintro ⟨entry, hentry, hnone⟩
      exact hnone (hbefore j hother entry hentry)

/-- A document whose options are right is refused with a fault if and only if some place in it is
at fault. The fault that is told is the one of the first such place, which its message names. A
document without faults is the run of the calls that its entries stand for. -/
theorem loads_calls_or_tells_first_fault :
    ((∃ fault, Diagram.ofDocument (.map sections) = .error (.fault fault)) ↔
        ∃ place, FaultyAt sections place) ∧
      (∀ fault, Diagram.ofDocument (.map sections) = .error (.fault fault) →
        ∃ place, fault.place? = some place ∧ place.name.toList <+: fault.message.toList ∧
          FaultyAt sections place ∧ ∀ other, other.Precedes place → ¬ FaultyAt sections other) ∧
      ((¬ ∃ place, FaultyAt sections place) →
        ∃ calls, StandsFor sections calls ∧ (Diagram.new options).accepts calls = true ∧
          Diagram.ofDocument (.map sections) = .ok ((Diagram.new options).run calls)) := by
  have hfirst := @firstFault_of_ofDocument _ _ hkeyed hoptions hgroups
  have hcalls := @exists_calls_of_ofDocument _ _ hkeyed hoptions hgroups
  refine ⟨⟨?_, ?_⟩, ?_, ?_⟩
  · rintro ⟨fault, h⟩
    obtain ⟨-, place, -, -, hfaulty, -⟩ := hfirst h
    exact ⟨place, hfaulty⟩
  · rintro ⟨place, hfaulty⟩
    cases h : Diagram.ofDocument (.map sections) with
    | ok d => exact absurd hfaulty ((hcalls h).1 place)
    | error cause =>
        obtain ⟨fault, -, rfl, -⟩ := hfirst h
        exact ⟨fault, rfl⟩
  · intro fault h
    obtain ⟨_, place, ⟨⟩, hplace, hfaulty, hbefore⟩ := hfirst h
    exact ⟨place, hplace, name_isPrefix_message hplace, hfaulty, hbefore⟩
  · intro hnone
    cases h : Diagram.ofDocument (.map sections) with
    | ok d =>
        obtain ⟨-, calls, hstands, haccepts, rfl⟩ := hcalls h
        exact ⟨calls, hstands, haccepts, rfl⟩
    | error cause =>
        obtain ⟨-, place, -, -, hfaulty, -⟩ := hfirst h
        exact absurd ⟨place, hfaulty⟩ hnone

end Sections

def tiers (edges : List Value) : List (Value × Value) :=
  [("options", Value.ofFields [("name", .str "Services")]),
    ("nodes", .list [.str "A", .ofFields [("name", .str "B"), ("group", .str "Tier 1"),
      ("attributes", .ofFields [("group", .str "Tier 2")])]]),
    ("edges", .list edges)].map fun field => (.str field.1, field.2)

theorem keyed_tiers {edges : List Value} (hedges : ∀ entry ∈ edges, entry.IsJson) :
    (Value.map (tiers edges)).Keyed := by
  have hoptions : (Value.ofFields [("name", .str "Services")]).IsJson :=
    .ofFields (by decide) (List.forall_mem_singleton.2 (.str _))
  have hattributes : (Value.ofFields [("group", .str "Tier 2")]).IsJson :=
    .ofFields (by decide) (List.forall_mem_singleton.2 (.str _))
  have hnode : (Value.ofFields [("name", .str "B"), ("group", .str "Tier 1"),
      ("attributes", .ofFields [("group", .str "Tier 2")])]).IsJson := by
    refine .ofFields (by decide) ?_
    simp only [List.map_cons, List.map_nil, List.forall_mem_cons]
    exact ⟨.str _, .str _, hattributes, nofun⟩
  have hnodes : ∀ entry ∈ [Value.str "A", _], entry.IsJson :=
    List.forall_mem_cons.2 ⟨.str _, List.forall_mem_singleton.2 hnode⟩
  refine (Value.IsJson.ofFields ?_ ?_).keyed
  · show ["options", "nodes", "edges"].Nodup
    decide
  · simp only [List.map_cons, List.map_nil, List.forall_mem_cons]
    exact ⟨hoptions, .list hnodes, .list hedges, nofun⟩

theorem not_carriesUnfitGroup_tiers (edges : List Value) :
    ∀ entry ∈ sectionEntries (field (tiers edges) "nodes"), ¬ CarriesUnfitGroup entry := by
  refine List.forall_mem_cons.2 ⟨?_, List.forall_mem_singleton.2 ?_⟩
  · rintro ⟨_, _, ⟨⟩, -⟩
  · rintro ⟨_, _, ⟨⟩, ⟨⟩, -, ⟨⟩⟩

/-- Without edges the document is loaded; a name alone as the second edge is told as a fault. -/
theorem tiers_loads_or_tells :
    (∃ options calls, StandsFor (tiers []) calls ∧
        Diagram.ofDocument (.map (tiers [])) = .ok ((Diagram.new options).run calls)) ∧
      ∃ fault, Diagram.ofDocument (.map (tiers [.list [.str "A", .str "B"], .str "A"])) =
        .error (.fault fault) := by
  obtain ⟨options, hoptions⟩ :
      ∃ options, Document.options (.ofFields [("name", .str "Services")]) = .ok options :=
    exists_ok_of_isOk (by decide +kernel)
  have hedges : ∀ entry ∈ [Value.list [.str "A", .str "B"], .str "A"], entry.IsJson := by
    refine List.forall_mem_cons.2 ⟨.list ?_, List.forall_mem_singleton.2 (.str _)⟩
    exact List.forall_mem_cons.2 ⟨.str _, List.forall_mem_singleton.2 (.str _)⟩
  constructor
  · let given : Attributes := Table.ofList [("group", .str "Tier 2")]
    have hgiven : Holds Attributes.toValue given.toValue (some given) := .given given
    have hnode : NodeCall (.ofFields [("name", .str "B"), ("group", .str "Tier 1"),
        ("attributes", given.toValue)]) _ :=
      .object rfl (by decide) (.given "Tier 1") hgiven
    have hstands : StandsFor (tiers []) _ :=
      ⟨_, _, rfl, .cons (.name (by decide)) (.cons hnode .nil), .nil⟩
    have hnone : ¬ ∃ place, FaultyAt (tiers []) place := by
      rintro ⟨place, hfaulty⟩
      cases place with
      | nodesSection => exact hfaulty ⟨_, .given _⟩
      | edgesSection => exact hfaulty ⟨_, .given _⟩
      | node i => exact (hstands.not_faultyAt_entry i).1 hfaulty
      | edge i => exact (hstands.not_faultyAt_entry i).2 hfaulty
    obtain ⟨calls, hcalls, -, hloaded⟩ := (loads_calls_or_tells_first_fault
      (keyed_tiers (List.forall_mem_nil _)) hoptions (not_carriesUnfitGroup_tiers _)).2.2 hnone
    exact ⟨options, calls, hcalls, hloaded⟩
  · refine (loads_calls_or_tells_first_fault (keyed_tiers hedges) hoptions
      (not_carriesUnfitGroup_tiers _)).1.2 ⟨.edge 1, .str "A", rfl, ?_⟩
    rintro ⟨_, ⟨hparts, -, -, -⟩⟩
    cases hparts

end HighlightGraph.Document
