import HighlightGraph.DocumentFile
import HighlightGraph.Proofs.Diagram.Consistency
import HighlightGraph.Proofs.Document.Load
import HighlightGraph.Proofs.Json.Printed
/-!
# Loaded diagrams are writable

Loading takes the values of a document over, into the nodes and edges of a diagram. What can be
printed and read in a document can therefore be printed and read in the diagram, but for the names
of groups: these are keys in print, and markup cannot be one.
-/

namespace HighlightGraph

/-! ## Values of a document -/

theorem Value.Writable.of_mem {items : List Value} (h : (Value.list items).Writable) {v : Value}
    (hv : v ∈ items) : v.Writable := by
  cases h with
  | list hitems => exact hitems v hv

theorem Value.Writable.of_mem_entries {entries : List (Value × Value)}
    (h : (Value.map entries).Writable) : ∀ entry ∈ entries, entry.2.Writable := by
  cases h with
  | map hkeys hentries => exact hentries

theorem Value.Writable.asMarkup {v : Value} (h : v.Writable) : v.asMarkup.Writable := by
  cases v with
  | str s =>
      rw [Value.asMarkup]
      split
      · exact .markup s
      · exact .str s
  | _ => exact h

theorem Value.forall_storeKey {P : Value → Prop} {spelling v : Value} {k : Key}
    {entries : List (Value × Value)} (hentries : ∀ entry ∈ entries, P entry.2) (hv : P v) :
    ∀ entry ∈ storeKey spelling k v entries, P entry.2 := by
  induction entries with
  | nil => exact List.forall_mem_singleton.2 hv
  | cons first rest ih =>
      obtain ⟨other, w⟩ := first
      rw [List.forall_mem_cons] at hentries
      rw [storeKey]
      split
      · exact List.forall_mem_cons.2 ⟨hv, hentries.2⟩
      · exact List.forall_mem_cons.2 ⟨hentries.1, ih hentries.2⟩

theorem Value.eq_map_of_fieldsOf? {entries : List (Value × Value)} {fields : List (String × Value)}
    (h : fieldsOf? entries = some fields) :
    entries = fields.map fun field => (.str field.1, field.2) := by
  induction entries generalizing fields with
  | nil =>
      cases h
      rfl
  | cons first rest ih =>
      obtain ⟨k, v⟩ := first
      cases k with
      | str key =>
          obtain ⟨others, hothers, rfl⟩ := Option.map_eq_some_iff.1 h
          rw [ih hothers]
          rfl
      | _ => cases h

/-! ## Attributes -/

def Attributes.Writable (attributes : Attributes) : Prop := ∀ v ∈ attributes.values, v.Writable

namespace Attributes

theorem Writable.ofMap {entries : List (Value × Value)} {attributes : Attributes}
    (hentries : ∀ entry ∈ entries, entry.2.Writable)
    (h : Attributes.ofMap (.map entries) = .ok attributes) : attributes.Writable := by
  unfold Attributes.ofMap at h
  dsimp only at h
  split at h
  · next fields hfields =>
    cases h
    rw [Value.eq_map_of_fieldsOf? hfields, List.forall_mem_map] at hentries
    exact Table.overlay_induction nofun hentries
  · cases h

theorem Writable.combine {reserved : List String} {entries : List (Value × Value)}
    {combined : Attributes} (hentries : ∀ entry ∈ entries, entry.2.Writable)
    (h : Attributes.combine reserved (.map entries) [] = .ok combined) : combined.Writable := by
  unfold Attributes.combine at h
  rw [List.find?_nil] at h
  obtain ⟨given, hgiven, rfl⟩ := map_eq_ok h
  have hwritable : given.Writable := by
    split at hgiven
    · exact .ofMap hentries (mapError_eq_ok hgiven)
    · cases hgiven
      exact nofun
  exact Table.forall_values_mapValues fun v hv => (hwritable v hv).asMarkup

theorem Writable.ofNode {attributes : Attributes} (h : attributes.Writable) {name : Value}
    (hname : name.Writable) (id : String) : (attributes.ofNode name id).Writable := by
  have hrest : ∀ v ∈ (attributes.erase "group").values, v.Writable :=
    Table.forall_values_filterKeys h _
  unfold Attributes.ofNode
  refine Table.forall_values_insert ?_ "id" (.str id)
  split
  · exact hrest
  · exact Table.forall_values_insert hrest "label" hname

theorem Writable.wantedGroup? {attributes : Attributes} (h : attributes.Writable) {v : Value}
    (hv : attributes.wantedGroup? = some v) : v.Writable :=
  h v (Table.mem_values_iff.2 ⟨"group", (Option.filter_eq_some_iff.1 hv).1⟩)

theorem Writable.toValue {attributes : Attributes} (h : attributes.Writable) :
    attributes.toValue.Writable :=
  .ofFields fun _ hfield => h _ (List.mem_map_of_mem hfield)

end Attributes

/-! ## Nodes, edges and diagrams -/

structure Node.Writable (n : Node) : Prop where
  name : n.name.Writable
  attributes : n.attributes.Writable
  group : ∀ {group : GroupName}, n.group = some group → group.value.Writable

structure Edge.Writable (e : Edge) : Prop where
  source : e.source.Writable
  target : e.target.Writable
  attributes : e.attributes.Writable

structure Diagram.Writable (d : Diagram) : Prop where
  residents : ∀ {home : Option Key} {id : String} {n : Node},
    (d.residents home).get? id = some n → n.Writable
  edges : ∀ {e : Edge}, e ∈ d.edges → e.Writable

theorem Node.Writable.toValue {n : Node} (h : n.Writable) : n.toValue.Writable := by
  refine .ofFields ?_
  simp only [List.forall_mem_cons]
  refine ⟨h.name, .str n.id, ?_, .bool n.missing, h.attributes.toValue, nofun⟩
  split
  · next hgroup => exact h.group hgroup
  · exact .null

theorem Edge.Writable.toValue {e : Edge} (h : e.Writable) : e.toValue.Writable := by
  refine .ofFields ?_
  simp only [List.forall_mem_cons]
  exact ⟨h.source, .str e.sourceId, h.target, .str e.targetId, h.attributes.toValue, nofun⟩

namespace Diagram

theorem writable_new (options : Options) : (new options).Writable where
  residents {home _ _} h := by cases home <;> cases h
  edges h := by cases h

theorem Writable.release {d : Diagram} (h : d.Writable) (group : Option GroupName) (id : String) :
    (d.release group id).Writable where
  residents hn := h.residents (get?_of_get?_residents_release hn)
  edges he := h.edges (by rwa [edges_release] at he)

theorem Writable.place {d : Diagram} (h : d.Writable) {n : Node} (hn : n.Writable) :
    (d.place n).Writable where
  residents hm := by
    rw [get?_residents_place] at hm
    split at hm
    · cases hm
      exact hn
    · exact h.residents hm
  edges he := h.edges (by rwa [edges_place] at he)

theorem Writable.register {d : Diagram} (h : d.Writable) {name : Value} (hname : name.Writable)
    {attributes : Attributes} (hattributes : attributes.Writable) (missing : Bool) :
    (d.register name attributes missing).1.Writable := by
  have hvacate : ∀ wanted, (d.vacate (Identifier.ofNode name) wanted).Writable :=
    fun wanted => vacate_induction _ wanted h fun group => h.release group _
  rcases register_cases d name attributes missing with ⟨group, hgroup, heq⟩ | ⟨v, -, -, -, heq⟩
  · rw [heq]
    refine (hvacate _).place ⟨hname, hattributes.ofNode hname _, ?_⟩
    rintro name' rfl
    cases missing with
    | true => cases hgroup
    | false => exact hattributes.wantedGroup? hgroup
  · rw [heq]
    exact hvacate _

theorem Writable.addNode {d : Diagram} (h : d.Writable) {name : Value} (hname : name.Writable)
    {entries : List (Value × Value)} (hentries : ∀ entry ∈ entries, entry.2.Writable) :
    (d.addNode name (.map entries) []).1.Writable := by
  unfold Diagram.addNode
  split
  · next hcombined => exact h.register hname (.combine hentries hcombined) false
  · exact h

theorem Writable.addEdge {d : Diagram} (h : d.Writable) {source target : Value}
    (hsource : source.Writable) (htarget : target.Writable) {entries : List (Value × Value)}
    (hentries : ∀ entry ∈ entries, entry.2.Writable) :
    (d.addEdge source target (.map entries) []).1.Writable := by
  unfold Diagram.addEdge
  split
  · next hcombined =>
    refine ⟨fun hn => h.residents (by rwa [residents_with_edges] at hn), fun he => ?_⟩
    rcases List.mem_append.1 he with he | he
    · exact h.edges he
    · rw [List.mem_singleton.1 he]
      exact ⟨hsource, htarget, .combine hentries hcombined⟩
  · exact h

theorem Writable.list_residents {d : Diagram} (h : d.Writable) (home : Option Key) :
    (Value.list ((d.residents home).values.map Node.toValue)).Writable := by
  refine .list (List.forall_mem_map.2 fun n hn => ?_)
  obtain ⟨id, hid⟩ := Table.mem_values_iff.1 hn
  exact (h.residents hid).toValue

theorem Writable.list_members {d : Diagram} (h : d.Writable) {group : Group}
    (hgroup : group ∈ d.groups.values) :
    (Value.list (group.members.values.map Node.toValue)).Writable := by
  obtain ⟨k, hk⟩ := Table.mem_values_iff.1 hgroup
  rw [← residents_of_group hk]
  exact h.list_residents (some k)

/-- Only the names of groups can keep a diagram from being printed. -/
theorem Writable.toValue {d : Diagram} (h : d.Writable)
    (hnames : ∀ group ∈ d.groups.values, (Json.keyName group.name.value).isOk = true) :
    d.toValue.Writable := by
  refine .ofFields ?_
  simp only [List.forall_mem_cons]
  exact ⟨.map (List.forall_mem_map.2 hnames) (List.forall_mem_map.2 fun _ => h.list_members),
    h.list_residents none, .list (List.forall_mem_map.2 fun e he => (h.edges he).toValue), nofun⟩

/-- A group whose name is not one of a JSON key does keep it from being printed. -/
theorem Writable.print_toValue_eq_error {d : Diagram} (h : d.Writable)
    (hnames : ∃ group ∈ d.groups.values, (Json.keyName group.name.value).isOk = false) :
    Json.print 0 d.toValue = .error .notAKey := by
  have hgroups : Json.printEntries 2 (d.groups.values.map fun group =>
      (group.name.value, .list (group.members.values.map Node.toValue))) = .error .notAKey := by
    apply Json.printEntries_eq_error
    · refine List.forall_mem_map.2 fun group hgroup => ?_
      obtain ⟨text, htext, -⟩ := Json.exists_print (h.list_members hgroup) 2
      rw [htext]
      rfl
    · obtain ⟨group, hgroup, hname⟩ := hnames
      exact ⟨_, List.mem_map_of_mem hgroup, hname⟩
  rw [Diagram.toValue, Value.ofFields, List.map_cons, Json.print, Json.printEntries, Json.print,
    hgroups]
  rfl

end Diagram

/-! ## Loading -/

namespace Document

theorem writable_attributeEntries {v : Value} (hv : v.Writable) {fault : DocumentFault}
    {entries : List (Value × Value)} (h : attributeEntries v fault = .ok entries) :
    ∀ entry ∈ entries, entry.2.Writable := by
  unfold attributeEntries at h
  split at h
  · cases h
    exact nofun
  · cases h
    exact hv.of_mem_entries
  · cases h

theorem NodeEntry.writable_allAttributes {n : NodeEntry}
    (h : ∀ entry ∈ n.attributes, entry.2.Writable) :
    ∀ entry ∈ n.allAttributes, entry.2.Writable := by
  unfold allAttributes
  split
  · split
    · exact h
    · exact Value.forall_storeKey h (.str _)
  · exact h

theorem writable_nodeEntry {index : Nat} {entry : Value} (hentry : entry.Writable) {n : NodeEntry}
    (h : nodeEntry index entry = .ok n) : ∀ entry ∈ n.attributes, entry.2.Writable := by
  cases entry with
  | map fields =>
      obtain ⟨name, -, h⟩ := bind_eq_ok h
      obtain ⟨group, -, h⟩ := bind_eq_ok h
      obtain ⟨attributes, hattributes, h⟩ := bind_eq_ok h
      cases h
      exact writable_attributeEntries
        (forall_field hentry.of_mem_entries .null "attributes") hattributes
  | _ =>
      obtain ⟨name, -, h⟩ := bind_eq_ok h
      cases h
      exact nofun

theorem writable_edgeEntry {index : Nat} {entry : Value} (hentry : entry.Writable) {e : EdgeEntry}
    (h : edgeEntry index entry = .ok e) : ∀ entry ∈ e.attributes, entry.2.Writable := by
  obtain ⟨⟨source, target, attributes⟩, hparts, h⟩ := bind_eq_ok h
  obtain ⟨ends, -, h⟩ := bind_eq_ok h
  obtain ⟨entries, hentries, h⟩ := bind_eq_ok h
  cases h
  refine writable_attributeEntries ?_ hentries
  unfold edgeParts at hparts
  split at hparts
  · cases hparts
    exact .null
  · cases hparts
    exact hentry.of_mem (by simp)
  · cases hparts
    exact forall_field hentry.of_mem_entries .null "attributes"
  · cases hparts

theorem writable_loadNode {d e : Diagram} (hd : d.Writable) {index : Nat} {entry : Value}
    (hentry : entry.Writable) (h : loadNode d index entry = .ok e) : e.Writable := by
  obtain ⟨n, hn, h⟩ := bind_eq_ok h
  obtain ⟨node, hadd⟩ := stepped_eq_ok h
  have hafter := hd.addNode (.str n.name)
    (NodeEntry.writable_allAttributes (writable_nodeEntry hentry hn))
  rwa [hadd] at hafter

theorem writable_loadEdge {d e : Diagram} (hd : d.Writable) {index : Nat} {entry : Value}
    (hentry : entry.Writable) (h : loadEdge d index entry = .ok e) : e.Writable := by
  obtain ⟨declared, hdeclared, h⟩ := bind_eq_ok h
  obtain ⟨edge, hadd⟩ := stepped_eq_ok h
  have hafter := hd.addEdge (.str declared.source) (.str declared.target)
    (writable_edgeEntry hentry hdeclared)
  rwa [hadd] at hafter

/-- What a writable document describes is a writable diagram. -/
theorem writable_ofDocument {document : Value} (hdocument : document.Writable) {d : Diagram}
    (h : Diagram.ofDocument document = .ok d) : d.Writable := by
  cases document with
  | map sections =>
      obtain ⟨options, -, h⟩ := bind_eq_ok h
      obtain ⟨nodes, hnodes, h⟩ := bind_eq_ok h
      obtain ⟨edges, hedges, h⟩ := bind_eq_ok h
      obtain ⟨filled, hfilled, h⟩ := bind_eq_ok h
      have hsection : ∀ name, (field sections name).Writable :=
        forall_field hdocument.of_mem_entries .null
      have hnodes := forall_listSection (fun h _ => h.of_mem) (hsection "nodes") hnodes
      have hedges := forall_listSection (fun h _ => h.of_mem) (hsection "edges") hedges
      have hfilled : filled.Writable := loadEntries_induction
        (fun d _ entry e hentry hd he => writable_loadNode hd (hnodes entry hentry) he)
        (Diagram.writable_new options) hfilled
      exact loadEntries_induction
        (fun d _ entry e hentry hd he => writable_loadEdge hd (hedges entry hentry) he) hfilled h
  | _ => cases h

/-- The document of a file is a value of JSON and writable, as it was read from a text. -/
theorem exists_document_of_ofFile {content : ByteArray} {d : Diagram}
    (h : Diagram.ofFile content = .ok d) :
    ∃ document, document.IsJson ∧ document.Writable ∧ Diagram.ofDocument document = .ok d := by
  unfold Diagram.ofFile at h
  split at h
  · cases h
  · next document hdocument =>
    have hread : document.IsJson ∧ document.Writable := by
      unfold readDocument at hdocument
      split at hdocument
      · cases hdocument
      · dsimp only at hdocument
        split at hdocument
        · next hread =>
          cases hdocument
          exact ⟨Json.isJson_of_read hread, Json.writable_of_read hread⟩
        · cases hdocument
        · cases hdocument
    refine ⟨document, hread.1, hread.2, ?_⟩
    split at h
    · next hload =>
      cases h
      exact hload
    · cases h
    · cases h

end Document

end HighlightGraph
