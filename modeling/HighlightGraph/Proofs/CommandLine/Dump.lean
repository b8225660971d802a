import HighlightGraph.CommandLine.Run
import HighlightGraph.Proofs.Document.Writable
/-!
# Dumps

A dump tells the nodes of a diagram group by group, under the names that the groups have as JSON
keys. Two groups can have one such name, of which a reader keeps the last group only, and a group
that is named by markup has none, so that there is no dump.
-/

namespace HighlightGraph

open CommandLine

/-! ## Reading a dump -/

namespace Dump

def idOf? : Value → Option String
  | .map fields =>
    match Document.field fields "id" with
    | .str id => some id
    | _ => none
  | _ => none

def idsOf : Value → List String
  | .list nodes => nodes.filterMap idOf?
  | _ => []

def groupedIds : Value → List String
  | .map groups => groups.flatMap fun entry => idsOf entry.2
  | _ => []

/-- The identifiers of all nodes of a dump, those in groups first. -/
def nodeIds : Value → List String
  | .map sections =>
    groupedIds (Document.field sections "groups") ++ idsOf (Document.field sections "external")
  | _ => []

end Dump

namespace Diagram

/-- The names that the groups have in a dump, each with the identifiers of its nodes. -/
def namedIds (d : Diagram) : List (String × List String) :=
  d.groups.values.map fun group => (Json.nameOf group.name.value, group.members.keys)

/-- Whether the dump of a diagram can be read, and tells every node of the index once. -/
def DumpsAll (d : Diagram) (engine : Engine) : Prop :=
  ∃ text dump, (Format.json.render engine d).result = .ok text ∧
    Json.read text.toList = .ok dump ∧ (Dump.nodeIds dump).Perm d.nodes.keys

end Diagram

/-! ## What is read back -/

namespace Json

theorem reread_ofFields {fields : List (String × Value)}
    (hnodup : (fields.map Prod.fst).Nodup) :
    reread (.ofFields fields) = .ofFields (fields.map fun field => (field.1, reread field.2)) := by
  have hmembers : rereadMembers (fields.map fun field => (.str field.1, field.2)) =
      fields.map fun field => (field.1, reread field.2) := by
    rw [rereadMembers_eq_map, List.map_map]
    rfl
  rw [Value.ofFields, reread, hmembers, object, Table.entries_ofList]
  rwa [List.map_map]

end Json

namespace Dump

open Json

theorem idOf?_reread (n : Node) : idOf? (reread n.toValue) = some n.id := by
  rw [Node.toValue, reread_ofFields (by simp)]
  rfl

theorem idsOf_reread (nodes : List Node) :
    idsOf (reread (.list (nodes.map Node.toValue))) = nodes.map Node.id := by
  rw [reread, idsOf, rereadItems_eq_map, List.map_map, List.filterMap_map,
    ← List.filterMap_eq_map]
  exact List.filterMap_congr fun n _ => idOf?_reread n

theorem groupedIds_reread {d : Diagram} (h : d.WellFormed) :
    groupedIds (reread (.map (d.groups.values.map fun group =>
      (group.name.value, .list (group.members.values.map Node.toValue))))) =
      (Table.ofList d.namedIds).values.flatten := by
  let members := rereadMembers (d.groups.values.map fun group =>
    (group.name.value, .list (group.members.values.map Node.toValue)))
  have hnamed : members.map (fun member => (member.1, idsOf member.2)) = d.namedIds := by
    simp only [members, rereadMembers_eq_map, List.map_map]
    exact List.map_congr_left fun group hgroup =>
      congrArg _ ((idsOf_reread _).trans (d.map_id_members h group hgroup))
  have htable : (Table.ofList members).mapValues idsOf = Table.ofList d.namedIds := by
    rw [← hnamed]
    exact Table.mapValues_overlay .empty idsOf members
  rw [← htable]
  show ((Table.ofList members).entries.map _).flatMap _ = _
  rw [List.flatMap_map, List.flatMap_def, Table.values, Table.mapValues, List.map_map]
  rfl

theorem nodeIds_reread {d : Diagram} (h : d.WellFormed) :
    nodeIds (reread d.toValue) =
      (Table.ofList d.namedIds).values.flatten ++ d.external.keys := by
  rw [Diagram.toValue, reread_ofFields (by simp)]
  show groupedIds (reread _) ++ idsOf (reread _) = _
  rw [groupedIds_reread h]
  exact congrArg _ ((idsOf_reread _).trans (Diagram.map_id_residents h none))

end Dump

/-! ## What a dump tells -/

namespace Diagram

theorem perm_namedIds {d : Diagram} (h : d.Consistent) :
    ((d.namedIds.map Prod.snd).flatten ++ d.external.keys).Perm d.nodes.keys := by
  have hids : d.placedNodes.map Node.id =
      (d.namedIds.map Prod.snd).flatten ++ d.external.keys := by
    rw [placedNodes, List.map_append, List.map_flatMap,
      List.flatMap_congr (d.map_id_members h.toWellFormed),
      namedIds, List.map_map, List.flatMap_def]
    exact congrArg _ (map_id_residents h.toWellFormed none)
  rw [← hids]
  exact perm_map_id_placedNodes h

theorem length_flatten_map_snd (entries : List (String × List String)) :
    (entries.map Prod.snd).flatten.length = Table.totalWeight List.length entries := by
  induction entries with
  | nil => rfl
  | cons entry rest ih =>
      rw [List.map_cons, List.flatten_cons, List.length_append, ih]
      rfl

/-- No node is lost if and only if no two groups have one name. -/
theorem perm_overlaid_iff {d : Diagram} (h : d.Consistent) :
    ((Table.ofList d.namedIds).values.flatten ++ d.external.keys).Perm d.nodes.keys ↔
      (d.namedIds.map Prod.fst).Nodup := by
  have hall := perm_namedIds h
  constructor
  · intro hperm
    have hmembers : ∀ entry ∈ d.namedIds, 0 < entry.2.length := by
      refine List.forall_mem_map.2 fun group hgroup => ?_
      obtain ⟨k, hk⟩ := Table.mem_values_iff.1 hgroup
      have hne : group.members.entries ≠ [] := List.isEmpty_eq_false_iff.1 (h.groups hk).2
      exact (List.length_map _).symm ▸ List.length_pos_iff.2 hne
    have hlength := (hperm.trans hall.symm).length_eq
    rw [List.length_append, List.length_append, Nat.add_right_cancel_iff, Table.values,
      length_flatten_map_snd, length_flatten_map_snd] at hlength
    exact Table.nodup_of_totalWeight_ofList hmembers hlength.ge
  · intro hnodup
    rwa [Table.values, Table.entries_ofList hnodup]

/-- A group has a name in a dump unless it is named by markup. -/
theorem isOk_keyName_iff (name : GroupName) :
    (Json.keyName name.value).isOk = true ↔ ∀ s, name.value ≠ .markup s := by
  have hkey := name.key_eq
  cases hvalue : name.value with
  | markup s => exact iff_of_false nofun fun h => h s rfl
  | list items =>
      rw [hvalue] at hkey
      cases hkey
  | map entries =>
      rw [hvalue] at hkey
      cases hkey
  | _ => exact iff_of_true rfl nofun

theorem exists_dump {d : Diagram} (hd : d.Consistent) (hwritable : d.Writable)
    (hnames : ∀ group ∈ d.groups.values, ∀ s, group.name.value ≠ .markup s) (engine : Engine) :
    ∃ text dump, (Format.json.render engine d).result = .ok text ∧
      Json.read text.toList = .ok dump ∧
      Dump.nodeIds dump = (Table.ofList d.namedIds).values.flatten ++ d.external.keys := by
  have hvalue := hwritable.toValue fun group hgroup =>
    (isOk_keyName_iff group.name).2 (hnames group hgroup)
  obtain ⟨text, htext, hreads⟩ := Json.exists_print hvalue 0
  refine ⟨text ++ "\n", Json.reread d.toValue, ?_, ?_, Dump.nodeIds_reread hd.toWellFormed⟩
  · rw [Format.render, htext]
    rfl
  · rw [String.toList_append]
    exact Json.read_of_readsAs hreads (Json.endsBefore_cons (.inr rfl) []) rfl

/-- A loaded diagram has a dump unless a group is named by markup. The dump tells the nodes of the
last group of every name, and the external nodes. It tells all nodes once if and only if it is there
and no two groups have one name in it. -/
theorem dumpsAll_iff {document : Value} (hdocument : document.Writable) {d : Diagram}
    (hload : Diagram.ofDocument document = .ok d) (engine : Engine) :
    ((∃ group ∈ d.groups.values, ∃ s, group.name.value = .markup s) →
        (Format.json.render engine d).result = .error (.misfit .notAKey)) ∧
      ((∀ group ∈ d.groups.values, ∀ s, group.name.value ≠ .markup s) →
        ∃ text dump, (Format.json.render engine d).result = .ok text ∧
          Json.read text.toList = .ok dump ∧
          Dump.nodeIds dump = (Table.ofList d.namedIds).values.flatten ++ d.external.keys) ∧
      (d.DumpsAll engine ↔ (∀ group ∈ d.groups.values, ∀ s, group.name.value ≠ .markup s) ∧
        (d.namedIds.map Prod.fst).Nodup) := by
  obtain ⟨sections, options, steps, -, -, haccept, hrun⟩ :=
    Document.exists_run_of_ofDocument hload
  have hd : d.Consistent := Reached.consistent ⟨options, steps, haccept, hrun⟩
  have hwritable := Document.writable_ofDocument hdocument hload
  have hrefused : (∃ group ∈ d.groups.values, ∃ s, group.name.value = .markup s) →
      (Format.json.render engine d).result = .error (.misfit .notAKey) := by
    rintro ⟨group, hgroup, s, hs⟩
    have hunnamed : (Json.keyName group.name.value).isOk = false := by
      rw [hs]
      rfl
    rw [Format.render, hwritable.print_toValue_eq_error ⟨group, hgroup, hunnamed⟩]
    rfl
  refine ⟨hrefused, fun hnames => exists_dump hd hwritable hnames engine, ?_⟩
  constructor
  · rintro ⟨text, dump, htext, hread, hperm⟩
    have hnames : ∀ group ∈ d.groups.values, ∀ s, group.name.value ≠ .markup s := by
      intro group hgroup s hs
      rw [hrefused ⟨group, hgroup, s, hs⟩] at htext
      cases htext
    obtain ⟨text', dump', htext', hread', hids⟩ := exists_dump hd hwritable hnames engine
    rw [htext] at htext'
    cases htext'
    rw [hread] at hread'
    cases hread'
    exact ⟨hnames, (perm_overlaid_iff hd).1 (hids ▸ hperm)⟩
  · rintro ⟨hnames, hnodup⟩
    obtain ⟨text, dump, htext, hread, hids⟩ := exists_dump hd hwritable hnames engine
    exact ⟨text, dump, htext, hread, hids ▸ (perm_overlaid_iff hd).2 hnodup⟩

def inGroup (name : String) (group : Value) : Value :=
  .ofFields [("name", .str name), ("attributes", .ofFields [("group", group)])]

theorem writable_inGroup (name : String) {group : Value} (h : group.Writable) :
    (inGroup name group).Writable := by
  refine .ofFields ?_
  simp only [List.forall_mem_cons]
  exact ⟨.str name, .ofFields (List.forall_mem_singleton.2 h), nofun⟩

/-- A number and its text as groups, and a node without a group. -/
def numberAndText : Value :=
  .ofFields
    [("nodes", .list [inGroup "A" (.int 5), inGroup "B" (.str "5"), .str "C"])]

def numberAndTextDiagram : Diagram :=
  (Diagram.ofDocument numberAndText).toOption.getD (.new .defaults)

/-- The two groups have one name, under which only the second one is read back. -/
theorem dump_of_a_number_and_its_text :
    Diagram.ofDocument numberAndText = .ok numberAndTextDiagram ∧
      numberAndTextDiagram.nodes.keys = ["r_a", "r_b", "r_c"] ∧
      (∃ text dump, (Format.json.render .absent numberAndTextDiagram).result = .ok text ∧
        Json.read text.toList = .ok dump ∧ Dump.nodeIds dump = ["r_b", "r_c"]) ∧
      ¬ numberAndTextDiagram.DumpsAll .absent := by
  have hdocument : numberAndText.Writable := by
    refine .ofFields (List.forall_mem_singleton.2 (.list ?_))
    simp only [List.forall_mem_cons]
    exact ⟨writable_inGroup "A" (.int (by decide)), writable_inGroup "B" (.str "5"), .str "C",
      nofun⟩
  have hload : Diagram.ofDocument numberAndText = .ok numberAndTextDiagram := by
    obtain ⟨d, hd⟩ := exists_ok_of_isOk
      (show (Diagram.ofDocument numberAndText).isOk = true by decide +kernel)
    rw [numberAndTextDiagram, hd]
    rfl
  have hnames : ∀ group ∈ numberAndTextDiagram.groups.values, ∀ s,
      group.name.value ≠ .markup s := by
    have hnamed : ∀ group ∈ numberAndTextDiagram.groups.values,
        (Json.keyName group.name.value).isOk = true := by
      decide +kernel
    exact fun group hgroup => (isOk_keyName_iff group.name).1 (hnamed group hgroup)
  obtain ⟨-, hdump, hall⟩ := dumpsAll_iff hdocument hload .absent
  refine ⟨hload, by decide +kernel, ?_, mt (fun h => (hall.1 h).2) (by decide +kernel)⟩
  obtain ⟨text, dump, htext, hread, hids⟩ := hdump hnames
  exact ⟨text, dump, htext, hread, hids.trans (by decide +kernel)⟩

/-- A document with a group that is named by markup is taken, and then has no dump. -/
theorem dump_can_fail :
    ¬ ∀ (document : Value) (d : Diagram) (engine : Engine), document.Writable →
      Diagram.ofDocument document = .ok d → d.DumpsAll engine := by
  intro hclaim
  let document : Value := .ofFields [("nodes", .list [inGroup "A" (.str "<<b>>")])]
  have hdocument : document.Writable :=
    .ofFields (List.forall_mem_singleton.2
      (.list (List.forall_mem_singleton.2 (writable_inGroup "A" (.str "<<b>>")))))
  have hprint : (Diagram.ofDocument document).toOption.any
      (fun d => !(Json.print 0 d.toValue).isOk) = true := by
    decide +kernel
  obtain ⟨d, hd, hrefused⟩ := (Option.any_eq_true _ _).1 hprint
  obtain ⟨text, -, htext, -⟩ :=
    hclaim document d .absent hdocument (eq_ok_of_toOption_eq_some hd)
  obtain ⟨printed, hprinted, -⟩ := map_eq_ok (mapError_eq_ok htext)
  rw [hprinted] at hrefused
  cases hrefused

end Diagram

end HighlightGraph
