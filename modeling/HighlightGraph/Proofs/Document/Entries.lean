import HighlightGraph.Document
import HighlightGraph.Proofs.Diagram.Run
import HighlightGraph.Proofs.Json.Values
import HighlightGraph.Proofs.Options
/-!
# Entries of a document

What an entry declares, and whether it is taken, which depends on the entry alone. What keeps a
well-formed entry from being taken is a group in the attributes of a node: unlike the group that
stands apart, it is not checked, and a list or a map cannot be a key.
-/

namespace HighlightGraph

/-! ## Maps with names as keys -/

/-- The values whose maps have distinct texts as keys. -/
inductive Value.Keyed : Value → Prop where
  | null : Keyed .null
  | bool (b : Bool) : Keyed (.bool b)
  | int (n : Int) : Keyed (.int n)
  | float (x : Double) : Keyed (.float x)
  | str (s : String) : Keyed (.str s)
  | markup (text : String) : Keyed (.markup text)
  | list {items : List Value} (h : ∀ v ∈ items, Keyed v) : Keyed (.list items)
  | object {members : Table String Value} (h : ∀ v ∈ members.values, Keyed v) :
      Keyed (.ofFields members.entries)

theorem Value.IsJson.keyed {v : Value} (h : v.IsJson) : v.Keyed := by
  induction h with
  | null => exact .null
  | bool b => exact .bool b
  | int n => exact .int n
  | float x => exact .float x
  | str s => exact .str s
  | list _ ih => exact .list ih
  | object _ ih => exact .object ih

theorem Value.Keyed.of_mem {items : List Value} (h : (Value.list items).Keyed) {v : Value}
    (hv : v ∈ items) : v.Keyed := by
  cases h with
  | list hitems => exact hitems v hv

theorem Value.Keyed.exists_members {entries : List (Value × Value)}
    (h : (Value.map entries).Keyed) :
    ∃ members : Table String Value,
      entries = members.entries.map (fun field => (Value.str field.1, field.2)) ∧
      ∀ v ∈ members.values, v.Keyed := by
  cases h with
  | object hmembers => exact ⟨_, rfl, hmembers⟩

theorem Value.Keyed.of_mem_entries {entries : List (Value × Value)}
    (h : (Value.map entries).Keyed) : ∀ entry ∈ entries, entry.2.Keyed := by
  obtain ⟨members, rfl, hmembers⟩ := h.exists_members
  exact List.forall_mem_map.2 fun field hfield => hmembers _ (List.mem_map_of_mem hfield)

/-! ## Attributes with markup -/

theorem Attributes.wantedGroup?_mapValues {attributes : Attributes} :
    (∃ v, wantedGroup? (attributes.mapValues Value.asMarkup) = some v ∧ v.key? = none) ↔
      ∃ v, attributes.get? "group" = some v ∧ v.isGiven = true ∧ v.key? = none := by
  simp only [wantedGroup?, Table.get?_mapValues, Option.filter_eq_some_iff, Option.map_eq_some_iff]
  constructor
  · rintro ⟨_, ⟨⟨v, hv, rfl⟩, hgiven⟩, hkey⟩
    exact ⟨v, hv, (Value.isGiven_asMarkup v).symm.trans hgiven,
      (Value.key?_asMarkup_eq_none_iff v).1 hkey⟩
  · rintro ⟨v, hv, hgiven, hkey⟩
    exact ⟨_, ⟨⟨v, hv, rfl⟩, (Value.isGiven_asMarkup v).trans hgiven⟩,
      (Value.key?_asMarkup_eq_none_iff v).2 hkey⟩

theorem Attributes.combine_toValue (reserved : List String) (attributes : Attributes) :
    combine reserved attributes.toValue [] = .ok (attributes.mapValues Value.asMarkup) := by
  rw [combine, List.find?_nil]
  dsimp only
  split
  · rw [ofOverlay, ofMap_toValue]
    rfl
  · next hempty =>
    rw [eq_empty_of_not_isGiven hempty]
    rfl

def Attributes.withGroup (attributes : Attributes) : Option String → Attributes
  | some group => if group = "" then attributes else attributes.insert "group" (.str group)
  | none => attributes

theorem Attributes.get?_group_withGroup (attributes : Attributes) (group : Option String) :
    (attributes.withGroup group).get? "group" =
      if group.getD "" = "" then attributes.get? "group" else group.map .str := by
  cases group with
  | none => rfl
  | some group =>
      by_cases hempty : group = ""
      · simp [withGroup, hempty]
      · simp [withGroup, hempty]

/-! ## Places of faults -/

inductive Document.Place where
  | nodesSection
  | edgesSection
  | node (index : Nat)
  | edge (index : Nat)

/-- The place that a fault concerns, unless it is one of the document as a whole or of its
options. -/
def DocumentFault.place? : DocumentFault → Option Document.Place
  | notAnObject | optionsSection => none
  | nodesSection => some .nodesSection
  | edgesSection => some .edgesSection
  | nodeEntry i | nodeGroup i | nodeAttributes i => some (.node i)
  | edgeEntry i | edgeEndMissing i | edgeEndNoText i | edgeAttributes i => some (.edge i)

namespace Document

/-- Whether a declared node asks for a group that cannot be a key. A group that is given apart
overrides the one of the attributes. -/
def NodeEntry.Unplaceable (n : NodeEntry) : Prop :=
  n.group.getD "" = "" ∧ (field n.attributes "group").isGiven = true ∧
    (field n.attributes "group").key? = none

/-! ## Faults -/

def OnlyFaults {α : Type} (x : Except LoadError α) : Prop :=
  ∀ cause, x ≠ .error (.misfit cause)

theorem OnlyFaults.bind {α β : Type} {x : Except LoadError α} {f : α → Except LoadError β}
    (hx : OnlyFaults x) (hf : ∀ a, x = .ok a → OnlyFaults (f a)) : OnlyFaults (x >>= f) := by
  cases x with
  | error e => exact fun cause h => hx cause (congrArg Except.error (Except.error.inj h))
  | ok a => exact hf a rfl

theorem OnlyFaults.bind_eq_misfit_iff {α β : Type} {x : Except LoadError α}
    {f : α → Except LoadError β} (hx : OnlyFaults x) {cause : Misfit} :
    x >>= f = .error (.misfit cause) ↔ ∃ a, x = .ok a ∧ f a = .error (.misfit cause) := by
  cases x with
  | error e =>
      refine iff_of_false ?_ (by rintro ⟨a, ⟨⟩, -⟩)
      intro h
      exact hx cause (congrArg Except.error (Except.error.inj h))
  | ok a => exact ⟨fun h => ⟨a, rfl, h⟩, by rintro ⟨_, ⟨⟩, h⟩; exact h⟩

def FaultsAt {α : Type} (place : Place) (x : Except LoadError α) : Prop :=
  ∀ cause, x = .error cause →
    ∃ fault : DocumentFault, cause = .fault fault ∧ fault.place? = some place

section FaultsAt

variable {α β : Type} {place : Place} {x : Except LoadError α}

theorem FaultsAt.bind (hx : FaultsAt place x) {f : α → Except LoadError β}
    (hf : ∀ a, x = .ok a → FaultsAt place (f a)) : FaultsAt place (x >>= f) := by
  cases x with
  | error e => exact fun cause h => hx cause (congrArg Except.error (Except.error.inj h))
  | ok a => exact hf a rfl

theorem FaultsAt.onlyFaults (hx : FaultsAt place x) : OnlyFaults x := by
  intro cause h
  obtain ⟨fault, hfault, -⟩ := hx _ h
  cases hfault

theorem faultsAt_fault {fault : DocumentFault} (h : fault.place? = some place) :
    FaultsAt place (.error (.fault fault) : Except LoadError α) := by
  rintro cause ⟨⟩
  exact ⟨fault, rfl, h⟩

end FaultsAt

theorem faultsAt_attributeEntries (v : Value) {fault : DocumentFault} {place : Place}
    (h : fault.place? = some place) : FaultsAt place (attributeEntries v fault) := by
  unfold attributeEntries
  split
  · exact nofun
  · exact nofun
  · exact faultsAt_fault h

theorem faultsAt_nodeName (v : Value) (index : Nat) :
    FaultsAt (.node index) (nodeName v index) := by
  unfold nodeName
  split
  · split
    · exact faultsAt_fault rfl
    · exact nofun
  · exact faultsAt_fault rfl

theorem faultsAt_nodeGroup (v : Value) (index : Nat) :
    FaultsAt (.node index) (nodeGroup v index) := by
  unfold nodeGroup
  split
  · exact nofun
  · exact nofun
  · exact faultsAt_fault rfl

theorem faultsAt_nodeEntry (index : Nat) (entry : Value) :
    FaultsAt (.node index) (nodeEntry index entry) := by
  unfold nodeEntry
  split
  · refine (faultsAt_nodeName _ _).bind fun _ _ => (faultsAt_nodeGroup _ _).bind fun _ _ => ?_
    exact (faultsAt_attributeEntries _ rfl).bind fun _ _ => nofun
  · exact (faultsAt_nodeName _ _).bind fun _ _ => nofun

theorem faultsAt_edgeParts (index : Nat) (entry : Value) :
    FaultsAt (.edge index) (edgeParts index entry) := by
  unfold edgeParts
  split
  · exact nofun
  · exact nofun
  · exact nofun
  · exact faultsAt_fault rfl

theorem faultsAt_edgeEnds (index : Nat) (source target : Value) :
    FaultsAt (.edge index) (edgeEnds index source target) := by
  unfold edgeEnds
  split
  · exact faultsAt_fault rfl
  · split
    · exact nofun
    · exact faultsAt_fault rfl

theorem faultsAt_edgeEntry (index : Nat) (entry : Value) :
    FaultsAt (.edge index) (edgeEntry index entry) := by
  refine (faultsAt_edgeParts _ _).bind fun _ _ => (faultsAt_edgeEnds _ _ _).bind fun _ _ => ?_
  exact (faultsAt_attributeEntries _ rfl).bind fun _ _ => nofun

/-! ## Declared attributes -/

section Declared

variable {entries : List (Value × Value)} {attributes : Attributes}

theorem field_eq (h : .map entries = attributes.toValue) (name : String) :
    field entries name = (attributes.get? name).getD .null := by
  have hlookup : ∀ fields : List (String × Value),
      Value.lookupKey (.text name) (fields.map fun field => (.str field.1, field.2)) =
        Table.lookup name fields := by
    intro fields
    induction fields with
    | nil => rfl
    | cons field rest ih => simp [Value.lookupKey, Table.lookup, Value.key?, ih]
  cases h
  rw [field, hlookup]
  rfl

theorem map_storeKey (h : .map entries = attributes.toValue) (name : String) (v : Value) :
    Value.map (Value.storeKey (.str name) (.text name) v entries) =
      Attributes.toValue (attributes.insert name v) := by
  have hstore : ∀ fields : List (String × Value),
      Value.storeKey (.str name) (.text name) v (fields.map fun field => (.str field.1, field.2)) =
        (Table.store name v fields).map fun field => (.str field.1, field.2) := by
    intro fields
    induction fields with
    | nil => rfl
    | cons field rest ih =>
        by_cases hname : field.1 = name
        · simp [Value.storeKey, Table.store, Value.key?, hname]
        · simp [Value.storeKey, Table.store, Value.key?, hname, ih]
  cases h
  exact congrArg Value.map (hstore attributes.entries)

theorem forall_field {P : Value → Prop} {entries : List (Value × Value)}
    (h : ∀ entry ∈ entries, P entry.2) (hnull : P .null) (name : String) :
    P (field entries name) := by
  unfold field
  induction entries with
  | nil => exact hnull
  | cons first rest ih =>
      obtain ⟨k, v⟩ := first
      rw [List.forall_mem_cons] at h
      rw [Value.lookupKey]
      split
      · exact h.1
      · exact ih h.2

theorem keyed_field (h : (Value.map entries).Keyed) (name : String) :
    (field entries name).Keyed :=
  forall_field h.of_mem_entries .null name

theorem exists_attributes {v : Value} (hv : v.Keyed) {fault : DocumentFault}
    (h : attributeEntries v fault = .ok entries) :
    ∃ attributes : Attributes, .map entries = attributes.toValue := by
  unfold attributeEntries at h
  split at h
  · cases h
    exact ⟨.empty, rfl⟩
  · cases h
    obtain ⟨members, rfl, -⟩ := hv.exists_members
    exact ⟨members, rfl⟩
  · cases h

end Declared

/-! ## Nodes -/

theorem NodeEntry.unplaceable_iff {n : NodeEntry} {given : Attributes}
    (hgiven : .map n.attributes = given.toValue) :
    n.Unplaceable ↔ n.group.getD "" = "" ∧
      ∃ v, given.get? "group" = some v ∧ v.isGiven = true ∧ v.key? = none := by
  rw [Unplaceable, field_eq hgiven]
  cases given.get? "group" with
  | none => simp [Value.isGiven]
  | some v => simp

theorem NodeEntry.map_allAttributes {n : NodeEntry} {given : Attributes}
    (hgiven : .map n.attributes = given.toValue) :
    .map n.allAttributes = (given.withGroup n.group).toValue := by
  cases hgroup : n.group with
  | none => simpa only [allAttributes, hgroup, Attributes.withGroup] using hgiven
  | some group =>
      simp only [allAttributes, hgroup, Attributes.withGroup]
      split
      · exact hgiven
      · exact map_storeKey hgiven "group" (.str group)

/-- A well-formed node is refused if it asks for a group that cannot be a key, and for nothing
else. -/
theorem NodeEntry.addNode_eq_error_iff {n : NodeEntry} {given : Attributes}
    (hgiven : .map n.attributes = given.toValue) {d : Diagram} {cause : Misfit} :
    (d.addNode (.str n.name) (.map n.allAttributes) []).2 = .error cause ↔
      cause = .notAKey ∧ n.Unplaceable := by
  rw [map_allAttributes hgiven, Diagram.addNode, Attributes.combine_toValue,
    unplaceable_iff hgiven]
  dsimp only
  rw [Diagram.register_eq_error_iff, Attributes.wantedGroup?_mapValues,
    Attributes.get?_group_withGroup]
  by_cases hempty : n.group.getD "" = ""
  · rw [if_pos hempty]
    simp only [hempty, true_and]
  · rw [if_neg hempty]
    -- A group that stands apart is a text, which can be a key.
    simp [hempty, Value.key?]

theorem exists_of_nodeEntry {index : Nat} {entry : Value} (hentry : entry.Keyed) {n : NodeEntry}
    (h : nodeEntry index entry = .ok n) :
    ∃ given : Attributes, .map n.attributes = given.toValue := by
  unfold nodeEntry at h
  split at h
  · next fields =>
    obtain ⟨name, -, h⟩ := bind_eq_ok h
    obtain ⟨group, -, h⟩ := bind_eq_ok h
    obtain ⟨attributes, hattributes, h⟩ := bind_eq_ok h
    cases h
    exact exists_attributes (keyed_field hentry "attributes") hattributes
  · obtain ⟨name, -, h⟩ := bind_eq_ok h
    cases h
    exact ⟨.empty, rfl⟩

theorem stepped_eq_error_iff {α : Type} {r : Diagram × Except Misfit α} {cause : LoadError} :
    stepped r = .error cause ↔ ∃ m, r.2 = .error m ∧ cause = .misfit m := by
  obtain ⟨d, result⟩ := r
  cases result with
  | ok a => exact iff_of_false nofun nofun
  | error m =>
      constructor
      · rintro ⟨⟩
        exact ⟨m, rfl, rfl⟩
      · rintro ⟨_, ⟨⟩, rfl⟩
        rfl

theorem stepped_eq_ok {α : Type} {r : Diagram × Except Misfit α} {d : Diagram}
    (h : stepped r = .ok d) : ∃ a, r = (d, .ok a) := by
  obtain ⟨after, result⟩ := r
  cases result with
  | ok a =>
      cases h
      exact ⟨a, rfl⟩
  | error m => cases h

theorem exists_stepped_iff {α : Type} {r : Diagram × Except Misfit α} :
    (∃ d, stepped r = .ok d) ↔ ∀ cause, r.2 ≠ .error cause := by
  obtain ⟨d, result⟩ := r
  cases result with
  | ok a => exact iff_of_true ⟨d, rfl⟩ nofun
  | error m => exact iff_of_false nofun fun h => h m rfl

section LoadNode

variable {d : Diagram} {index : Nat} {entry : Value}

theorem loadNode_eq_misfit_iff (hentry : entry.Keyed) {cause : Misfit} :
    loadNode d index entry = .error (.misfit cause) ↔
      cause = .notAKey ∧ ∃ n, nodeEntry index entry = .ok n ∧ n.Unplaceable := by
  rw [loadNode]
  cases hn : nodeEntry index entry with
  | error e =>
      refine iff_of_false ?_ (by rintro ⟨-, n, ⟨⟩, -⟩)
      rintro ⟨⟩
      exact (faultsAt_nodeEntry index entry).onlyFaults cause hn
  | ok n =>
      obtain ⟨given, hgiven⟩ := exists_of_nodeEntry hentry hn
      show stepped _ = _ ↔ _
      simp only [stepped_eq_error_iff, n.addNode_eq_error_iff hgiven, LoadError.misfit.injEq,
        exists_eq_right', Except.ok.injEq, exists_eq_left']

theorem exists_loadNode_iff (hentry : entry.Keyed) :
    (∃ e, loadNode d index entry = .ok e) ↔
      ∃ n, nodeEntry index entry = .ok n ∧ ¬ n.Unplaceable := by
  rw [loadNode]
  cases hn : nodeEntry index entry with
  | error e => exact iff_of_false nofun nofun
  | ok n =>
      obtain ⟨given, hgiven⟩ := exists_of_nodeEntry hentry hn
      show (∃ e, stepped _ = _) ↔ _
      simp only [exists_stepped_iff, ne_eq, n.addNode_eq_error_iff hgiven, not_and, forall_eq,
        Except.ok.injEq, exists_eq_left']

end LoadNode

/-! ## Edges -/

theorem keyed_of_edgeParts {index : Nat} {entry source target attributes : Value}
    (hentry : entry.Keyed) (h : edgeParts index entry = .ok (source, target, attributes)) :
    attributes.Keyed := by
  unfold edgeParts at h
  split at h
  · cases h
    exact .null
  · cases h
    exact hentry.of_mem (by simp)
  · cases h
    exact keyed_field hentry "attributes"
  · cases h

theorem exists_of_edgeEntry {index : Nat} {entry : Value} (hentry : entry.Keyed) {e : EdgeEntry}
    (h : edgeEntry index entry = .ok e) :
    ∃ given : Attributes, .map e.attributes = given.toValue := by
  obtain ⟨⟨source, target, attributes⟩, hparts, h⟩ := bind_eq_ok h
  obtain ⟨⟨sourceName, targetName⟩, -, h⟩ := bind_eq_ok h
  obtain ⟨given, hgiven, h⟩ := bind_eq_ok h
  cases h
  exact exists_attributes (keyed_of_edgeParts hentry hparts) hgiven

/-- A well-formed edge is never refused. -/
theorem onlyFaults_loadEdge {d : Diagram} {index : Nat} {entry : Value} (hentry : entry.Keyed) :
    OnlyFaults (loadEdge d index entry) := by
  refine (faultsAt_edgeEntry index entry).onlyFaults.bind ?_
  intro e he cause h
  obtain ⟨given, hgiven⟩ := exists_of_edgeEntry hentry he
  obtain ⟨m, hm, -⟩ := stepped_eq_error_iff.1 h
  rw [hgiven, Diagram.addEdge, Attributes.combine_toValue] at hm
  cases hm

end Document

end HighlightGraph
