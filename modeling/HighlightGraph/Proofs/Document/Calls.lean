import HighlightGraph.Proofs.Document.Load
/-!
# Entries as calls

An entry of a document stands for the call that registers it, unless a part of it is no text, map or
list where it has to be one. Loading an entry makes its call, or tells a fault in its place.
-/

namespace HighlightGraph.Document

/-! ## What entries stand for -/

/-- What a field holds that may be left out. -/
inductive Holds {α : Type} (toValue : α → Value) : Value → Option α → Prop where
  | nothing : Holds toValue .null none
  | given (a : α) : Holds toValue (toValue a) (some a)

/-- The call that a node entry stands for: a name, or a map with a name. -/
inductive NodeCall : Value → Step → Prop where
  | name {name : String} (hname : name ≠ "") : NodeCall (.str name) (.node (.str name) .null [])
  | object {fields : List (Value × Value)} {name : String} {group : Option String}
      {attributes : Option Attributes} (hfield : field fields "name" = .str name)
      (hname : name ≠ "") (hgroup : Holds .str (field fields "group") group)
      (hattributes : Holds Attributes.toValue (field fields "attributes") attributes) :
      NodeCall (.map fields)
        (.node (.str name) ((attributes.getD .empty).withGroup group).toValue [])

inductive EdgeParts : Value → Value × Value × Value → Prop where
  | pair (source target : Value) : EdgeParts (.list [source, target]) (source, target, .null)
  | triple (source target attributes : Value) :
      EdgeParts (.list [source, target, attributes]) (source, target, attributes)
  | object (fields : List (Value × Value)) :
      EdgeParts (.map fields)
        (field fields "from", field fields "to", field fields "attributes")

inductive EdgeCall : Value → Step → Prop where
  | edge {entry given : Value} {source target : String} {attributes : Option Attributes}
      (hparts : EdgeParts entry (.str source, .str target, given)) (hsource : source ≠ "")
      (htarget : target ≠ "") (hattributes : Holds Attributes.toValue given attributes) :
      EdgeCall entry (.edge (.str source) (.str target) given [])

/-! ## The checks of an entry -/

theorem Holds.nodeGroup_eq {v : Value} {group : Option String} (h : Holds .str v group)
    (index : Nat) : nodeGroup v index = .ok group := by
  cases h <;> rfl

theorem Holds.attributeEntries_eq {v : Value} {attributes : Option Attributes}
    (h : Holds Attributes.toValue v attributes) (fault : DocumentFault) :
    ∃ entries, attributeEntries v fault = .ok entries ∧
      .map entries = (attributes.getD .empty).toValue := by
  cases h with
  | nothing => exact ⟨[], rfl, rfl⟩
  | given a => exact ⟨_, rfl, rfl⟩

theorem nodeName_str {name : String} (h : name ≠ "") (index : Nat) :
    nodeName (.str name) index = .ok name := by
  rw [nodeName, if_neg h]

theorem eq_str_of_nodeName {v : Value} {index : Nat} {name : String}
    (h : nodeName v index = .ok name) : v = .str name ∧ name ≠ "" := by
  unfold nodeName at h
  split at h
  · split at h
    · cases h
    · next hne =>
      cases h
      exact ⟨rfl, hne⟩
  · cases h

theorem holds_of_nodeGroup {v : Value} {index : Nat} {group : Option String}
    (h : nodeGroup v index = .ok group) : Holds .str v group := by
  unfold nodeGroup at h
  split at h
  · cases h
    exact .nothing
  · cases h
    exact .given _
  · cases h

theorem holds_of_attributeEntries {v : Value} (hv : v.Keyed) {fault : DocumentFault}
    {entries : List (Value × Value)} (h : attributeEntries v fault = .ok entries) :
    ∃ attributes, Holds Attributes.toValue v attributes := by
  unfold attributeEntries at h
  split at h
  · exact ⟨none, .nothing⟩
  · obtain ⟨members, rfl, -⟩ := hv.exists_members
    exact ⟨some members, .given (α := Attributes) members⟩
  · cases h

/-! ### Nodes -/

theorem NodeCall.nodeEntry_eq {entry : Value} {call : Step} (h : NodeCall entry call)
    (index : Nat) :
    ∃ n, nodeEntry index entry = .ok n ∧
      ∀ d : Diagram, d.step call = d.step (.node (.str n.name) (.map n.allAttributes) []) := by
  cases h with
  | @name name hname =>
      refine ⟨⟨name, none, []⟩, ?_, fun d => rfl⟩
      show (nodeName (.str name) index >>= _) = _
      rw [nodeName_str hname]
      rfl
  | @object fields name group attributes hfield hname hgroup hattributes =>
      obtain ⟨entries, hentries, hmap⟩ := hattributes.attributeEntries_eq (.nodeAttributes index)
      refine ⟨⟨name, group, entries⟩, ?_, fun d => ?_⟩
      · rw [nodeEntry, hfield, nodeName_str hname, hgroup.nodeGroup_eq, hentries]
        rfl
      · rw [NodeEntry.map_allAttributes (n := ⟨name, group, entries⟩) hmap]

theorem exists_nodeCall {index : Nat} {entry : Value} (hentry : entry.Keyed) {n : NodeEntry}
    (h : nodeEntry index entry = .ok n) : ∃ call, NodeCall entry call := by
  unfold nodeEntry at h
  split at h
  · next fields =>
    obtain ⟨name, hname, h⟩ := bind_eq_ok h
    obtain ⟨group, hgroup, h⟩ := bind_eq_ok h
    obtain ⟨entries, hentries, -⟩ := bind_eq_ok h
    obtain ⟨hfield, hne⟩ := eq_str_of_nodeName hname
    obtain ⟨attributes, hattributes⟩ :=
      holds_of_attributeEntries (keyed_field hentry "attributes") hentries
    exact ⟨_, .object hfield hne (holds_of_nodeGroup hgroup) hattributes⟩
  · obtain ⟨name, hname, -⟩ := bind_eq_ok h
    obtain ⟨rfl, hne⟩ := eq_str_of_nodeName hname
    exact ⟨_, .name hne⟩

/-! ### Edges -/

theorem edgeParts_eq_ok_iff {index : Nat} {entry : Value} {parts : Value × Value × Value} :
    edgeParts index entry = .ok parts ↔ EdgeParts entry parts := by
  constructor
  · intro h
    unfold edgeParts at h
    split at h
    · cases h
      exact .pair _ _
    · cases h
      exact .triple _ _ _
    · cases h
      exact .object _
    · cases h
  · rintro ⟨⟩ <;> rfl

theorem edgeEnds_str {source target : String} (hsource : source ≠ "") (htarget : target ≠ "")
    (index : Nat) : edgeEnds index (.str source) (.str target) = .ok (source, target) := by
  simp [edgeEnds, Value.isGiven, hsource, htarget]

theorem eq_str_of_edgeEnds {index : Nat} {source target : Value} {ends : String × String}
    (h : edgeEnds index source target = .ok ends) :
    (source = .str ends.1 ∧ ends.1 ≠ "") ∧ target = .str ends.2 ∧ ends.2 ≠ "" := by
  unfold edgeEnds at h
  split at h
  · cases h
  · next hgiven =>
    split at h
    · cases h
      simpa [Value.isGiven] using hgiven
    · cases h

theorem EdgeCall.edgeEntry_eq {entry : Value} {call : Step} (h : EdgeCall entry call)
    (index : Nat) :
    ∃ e, edgeEntry index entry = .ok e ∧ ∀ d : Diagram,
      d.step call = d.step (.edge (.str e.source) (.str e.target) (.map e.attributes) []) := by
  cases h with
  | @edge given source target attributes hparts hsource htarget hattributes =>
      obtain ⟨entries, hentries, hmap⟩ := hattributes.attributeEntries_eq (.edgeAttributes index)
      refine ⟨⟨source, target, entries⟩, ?_, fun d => ?_⟩
      · rw [edgeEntry, edgeParts_eq_ok_iff.2 hparts]
        show (edgeEnds index (.str source) (.str target) >>= _) = _
        rw [edgeEnds_str hsource htarget]
        show (attributeEntries given _ >>= _) = _
        rw [hentries]
        rfl
      · rw [hmap]
        cases hattributes <;> rfl

theorem exists_edgeCall {index : Nat} {entry : Value} (hentry : entry.Keyed) {e : EdgeEntry}
    (h : edgeEntry index entry = .ok e) : ∃ call, EdgeCall entry call := by
  obtain ⟨⟨source, target, given⟩, hparts, h⟩ := bind_eq_ok h
  obtain ⟨ends, hends, h⟩ := bind_eq_ok h
  obtain ⟨entries, hentries, -⟩ := bind_eq_ok h
  obtain ⟨⟨rfl, hsource⟩, rfl, htarget⟩ := eq_str_of_edgeEnds hends
  obtain ⟨attributes, hattributes⟩ :=
    holds_of_attributeEntries (keyed_of_edgeParts hentry hparts) hentries
  exact ⟨_, .edge (edgeParts_eq_ok_iff.1 hparts) hsource htarget hattributes⟩

/-! ## Loading an entry -/

/-- Whether loading an entry makes the call that it stands for, which is not refused, or else tells
a fault in its place. -/
structure FollowsCalls (load : Diagram → Nat → Value → Except LoadError Diagram)
    (Call : Value → Step → Prop) (place : Nat → Place) (entry : Value) : Prop where
  follows : ∀ (d : Diagram) (index : Nat) {call : Step}, Call entry call →
    ∃ e, d.step call = (e, .ok ()) ∧ load d index entry = .ok e
  faults : ∀ (d : Diagram) (index : Nat), (¬ ∃ call, Call entry call) →
    ∃ fault : DocumentFault, load d index entry = .error (.fault fault) ∧
      fault.place? = some (place index)

theorem stepped_map {α β : Type} (r : Diagram × Except Misfit α) (f : α → β) :
    stepped (r.1, r.2.map f) = stepped r := by
  obtain ⟨d, result⟩ := r
  cases result <;> rfl

/-- Whether the attributes of an entry ask for a group that is not empty and cannot be a key. -/
def CarriesUnfitGroup (entry : Value) : Prop :=
  ∃ fields attributes, entry = .map fields ∧ field fields "attributes" = .map attributes ∧
    (field attributes "group").isGiven = true ∧ (field attributes "group").key? = none

theorem not_unplaceable_of_nodeEntry {index : Nat} {entry : Value} {n : NodeEntry}
    (hgroup : ¬ CarriesUnfitGroup entry) (h : nodeEntry index entry = .ok n) :
    ¬ n.Unplaceable := by
  rintro ⟨-, hgiven, hkey⟩
  unfold nodeEntry at h
  split at h
  · next fields =>
    obtain ⟨name, -, h⟩ := bind_eq_ok h
    obtain ⟨group, -, h⟩ := bind_eq_ok h
    obtain ⟨entries, hentries, h⟩ := bind_eq_ok h
    cases h
    unfold attributeEntries at hentries
    split at hentries
    · cases hentries
      cases hgiven
    · next given hmap =>
      cases hentries
      exact hgroup ⟨fields, entries, rfl, hmap, hgiven, hkey⟩
    · cases hentries
  · obtain ⟨name, -, h⟩ := bind_eq_ok h
    cases h
    cases hgiven

theorem followsCalls_loadNode {entry : Value} (hentry : entry.Keyed)
    (hgroup : ¬ CarriesUnfitGroup entry) : FollowsCalls loadNode NodeCall .node entry where
  follows d index call hcall := by
    obtain ⟨n, hn, hstep⟩ := hcall.nodeEntry_eq index
    obtain ⟨e, he⟩ : ∃ e, loadNode d index entry = .ok e :=
      (exists_loadNode_iff hentry).2 ⟨n, hn, not_unplaceable_of_nodeEntry hgroup hn⟩
    have hload : loadNode d index entry = stepped (d.step call) := by
      rw [loadNode, hn, hstep]
      exact (stepped_map (d.addNode (.str n.name) (.map n.allAttributes) []) fun _ => ()).symm
    obtain ⟨⟨⟩, hcalled⟩ := stepped_eq_ok (hload.symm.trans he)
    exact ⟨e, hcalled, he⟩
  faults d index hnone := by
    cases hn : nodeEntry index entry with
    | ok n => exact absurd (exists_nodeCall hentry hn) hnone
    | error cause =>
        obtain ⟨fault, rfl, hplace⟩ := faultsAt_nodeEntry index entry cause hn
        exact ⟨fault, by rw [loadNode, hn]; rfl, hplace⟩

theorem followsCalls_loadEdge {entry : Value} (hentry : entry.Keyed) :
    FollowsCalls loadEdge EdgeCall .edge entry where
  follows d index call hcall := by
    obtain ⟨declared, hdeclared, hstep⟩ := hcall.edgeEntry_eq index
    have hload : loadEdge d index entry = stepped (d.step call) := by
      rw [loadEdge, hdeclared, hstep]
      exact (stepped_map (d.addEdge (.str declared.source) (.str declared.target)
        (.map declared.attributes) []) fun _ => ()).symm
    cases he : loadEdge d index entry with
    | ok e =>
        obtain ⟨⟨⟩, hcalled⟩ := stepped_eq_ok (hload.symm.trans he)
        exact ⟨e, hcalled, rfl⟩
    | error cause =>
        obtain ⟨m, -, rfl⟩ := stepped_eq_error_iff.1 (hload.symm.trans he)
        exact absurd he (onlyFaults_loadEdge hentry m)
  faults d index hnone := by
    cases he : edgeEntry index entry with
    | ok e => exact absurd (exists_edgeCall hentry he) hnone
    | error cause =>
        obtain ⟨fault, rfl, hplace⟩ := faultsAt_edgeEntry index entry cause he
        exact ⟨fault, by rw [loadEdge, he]; rfl, hplace⟩

/-! ## Loading all entries -/

theorem exists_call_of_mem {Call : Value → Step → Prop} {entries : List Value}
    {calls : List Step} (h : List.Forall₂ Call entries calls) :
    ∀ entry ∈ entries, ∃ call, Call entry call :=
  forall_left_of_forall₂ h fun _ call hcall => ⟨call, hcall⟩

section FollowsCalls

variable {load : Diagram → Nat → Value → Except LoadError Diagram} {Call : Value → Step → Prop}
  {place : Nat → Place} {entries : List Value}
  (hentries : ∀ entry ∈ entries, FollowsCalls load Call place entry)
include hentries

/-- Entries that are loaded are the calls that they stand for. -/
theorem exists_calls_of_loadEntries {index : Nat} {d e : Diagram}
    (h : loadEntries load index entries d = .ok e) :
    ∃ calls, List.Forall₂ Call entries calls ∧ d.accepts calls = true ∧ d.run calls = e := by
  induction entries generalizing index d with
  | nil =>
      cases h
      exact ⟨[], .nil, rfl, rfl⟩
  | cons entry rest ih =>
      rw [List.forall_mem_cons] at hentries
      obtain ⟨hentry, hrest⟩ := hentries
      obtain ⟨next, hnext, h⟩ := bind_eq_ok h
      obtain ⟨calls, hcalls, haccepts, hrun⟩ := ih hrest h
      by_cases hcall : ∃ call, Call entry call
      · obtain ⟨call, hcall⟩ := hcall
        obtain ⟨after, hstep, hload⟩ := hentry.follows d index hcall
        cases hload.symm.trans hnext
        refine ⟨call :: calls, .cons hcall hcalls, ?_, ?_⟩
        · rw [Diagram.accepts, hstep]
          exact haccepts
        · rw [Diagram.run, List.foldl_cons, hstep]
          exact hrun
      · obtain ⟨fault, hfault, -⟩ := hentry.faults d index hcall
        cases hfault.symm.trans hnext

/-- Entries that are not loaded have a first one that stands for no call, and its fault is told. -/
theorem exists_fault_of_loadEntries {d : Diagram} {cause : LoadError}
    (h : loadEntries load 0 entries d = .error cause) :
    ∃ i fault, cause = .fault fault ∧ fault.place? = some (place i) ∧
      (∃ entry, entries[i]? = some entry ∧ ¬ ∃ call, Call entry call) ∧
      ∀ j < i, ∀ entry, entries[j]? = some entry → ∃ call, Call entry call := by
  obtain ⟨before, entry, after, e, rfl, hbefore, hload⟩ := loadEntries_eq_error_iff.1 h
  have hcalls : ∀ entry ∈ before, ∃ call, Call entry call := by
    obtain ⟨calls, hcalls, -⟩ := exists_calls_of_loadEntries
      (fun entry hentry => hentries entry (List.mem_append_left _ hentry)) hbefore
    exact exists_call_of_mem hcalls
  have hentry := hentries entry (by simp)
  have hnone : ¬ ∃ call, Call entry call := by
    rintro ⟨call, hcall⟩
    obtain ⟨after, -, hafter⟩ := hentry.follows _ _ hcall
    cases hafter.symm.trans hload
  obtain ⟨fault, hfault, hplace⟩ := hentry.faults _ _ hnone
  cases hfault.symm.trans hload
  refine ⟨before.length, fault, rfl, ?_, ⟨entry, by simp, hnone⟩, fun j hj entry hget => ?_⟩
  · rwa [Nat.zero_add] at hplace
  · rw [List.getElem?_append_left hj] at hget
    exact hcalls entry (List.mem_of_getElem? hget)

end FollowsCalls

end HighlightGraph.Document
