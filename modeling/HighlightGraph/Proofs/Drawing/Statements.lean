import HighlightGraph.Proofs.Attributes.RoundTrip
import HighlightGraph.Proofs.Drawing.Highlighting
/-!
# Attribute lists of statements

The list that a statement of a node or an edge carries, read as attributes. It holds what the caller
gave, and over it the marks by which nodes and edges are selected: whatever names the caller uses,
none of the marks is displaced.
-/

namespace HighlightGraph

open Attributes (IsReadable)

structure Node.Legible (n : Node) : Prop where
  attributes : n.attributes.Legible
  group : ∀ group ∈ n.group, IsReadable group.value ∧ group.value ≠ .null

/-! ## What statements are decoded to -/

/-- What the list of attributes is decoded to: every attribute that is set, once and in order. Its
value is the one that was written, unless that is a text with a backslash right before a line end or
before a letter that is taken for one. -/
structure Attributes.DecodesTo (attributes read : Attributes) : Prop where
  parse_eq : parse attributes.listText = .ok read
  keys_eq : read.keys = (attributes.entries.filter isSet).map Prod.fst
  get?_iff : ∀ k v, attributes.get? k = some v → v ≠ .null →
    (read.get? k = some v ↔
      ∀ s, v = .str s → ∀ c ∈ ['n', 'r', '\n', '\r'], ¬ ['\\', c] <:+: s.toList)

/-- What the statement of a node is decoded to: the attributes that the node holds, and its link,
its group and its identifier as the node has them. -/
structure Node.DecodesTo (n : Node) (read : Attributes) : Prop where
  line_eq : ∀ indent, (NodeStatement.ofNode n).line indent =
    indent ++ Identifier.ofNode n.name ++ n.drawn.listText ++ ";"
  drawn : n.drawn.DecodesTo read
  contains_iff : ∀ k, read.contains k = true ↔
    k = "href" ∨ (k = "group" ∧ n.group.isSome = true) ∨
      ∃ v, n.attributes.get? k = some v ∧ v ≠ .null
  get?_id : read.get? "id" = some (.str (Identifier.ofNode n.name))
  get?_href : read.get? "href" = some (.str (selectLink (Identifier.ofNode n.name)))

/-- What the statement of an edge is decoded to: the attributes that the edge holds, with its
tooltip and its identifier laid over them. -/
structure Edge.DecodesTo (e : Edge) (read : Attributes) : Prop where
  line_eq : (EdgeStatement.ofEdge e).line = "  " ++ Identifier.ofNode e.source ++ " -> " ++
    Identifier.ofNode e.target ++ e.drawn.listText ++ ";"
  drawn : e.drawn.DecodesTo read
  contains_iff : ∀ k, read.contains k = true ↔
    k = "edgetooltip" ∨ k = "id" ∨ ∃ v, e.attributes.get? k = some v ∧ v ≠ .null
  get?_id : read.get? "id" = some (.str (sourceToken (Identifier.ofNode e.source) ++ " " ++
    targetToken (Identifier.ofNode e.target)))

/-! ## Decoded lists -/

namespace Attributes

theorem Legible.decodesTo_reread {attributes : Attributes} (h : Legible attributes) :
    DecodesTo attributes attributes.reread where
  parse_eq := h.parse_listText
  keys_eq := by
    rw [Table.keys, entries_reread, List.map_map]
    rfl
  get?_iff _ _ := get?_reread_eq_self_iff

theorem get?_reread_of_plain {attributes : Attributes} {k s : String}
    (hk : attributes.get? k = some (.str s)) (hs : '\\' ∉ s.toList) :
    attributes.reread.get? k = some (.str s) := by
  refine (get?_reread_eq_self_iff hk nofun).2 fun t ht c _ hinfix => hs ?_
  cases ht
  exact hinfix.subset List.mem_cons_self

theorem key?_ne_none_of_isReadable {v : Value} (h : IsReadable v) : v.key? ≠ none := by
  cases v with
  | list | map | float => exact h.elim
  | _ => exact nofun

theorem Legible.ofNode {attributes : Attributes} (h : Legible attributes) (name id : String) :
    Legible (attributes.ofNode (.str name) id) := by
  have hrest : Legible (attributes.erase "group") := h.filterKeys _
  unfold Attributes.ofNode
  refine .insert ?_ (by decide) trivial
  split
  · exact hrest
  · exact hrest.insert (by decide) trivial

theorem Legible.isReadable_of_wantedGroup? {attributes : Attributes} (h : Legible attributes)
    {v : Value} (hv : attributes.wantedGroup? = some v) : IsReadable v ∧ v ≠ .null := by
  obtain ⟨hgroup, hgiven⟩ := Option.filter_eq_some_iff.1 hv
  refine ⟨(legible_iff.1 h "group" v hgroup).2, ?_⟩
  rintro rfl
  cases hgiven

end Attributes

/-! ## Nodes -/

theorem backslash_notMem_of_isIdText {id : String} (h : Identifier.IsIdText id) :
    '\\' ∉ id.toList :=
  h.notMem (by decide)

theorem backslash_notMem_selectLink {id : String} (h : Identifier.IsIdText id) :
    '\\' ∉ (selectLink id).toList := by
  have hbefore : '\\' ∉ ("javascript:(function()\x7bdocument.getElementById('" ++ rootId ++
      "').setAttribute('class', 'graph ").toList := by decide +kernel
  have hafter : '\\' ∉ "')\x7d)()".toList := by decide +kernel
  unfold selectLink
  intro hmem
  rw [String.toList_append, String.toList_append] at hmem
  rcases List.mem_append.1 hmem with hmem | hmem
  · rcases List.mem_append.1 hmem with hmem | hmem
    · exact hbefore hmem
    · exact backslash_notMem_of_isIdText h hmem
  · exact hafter hmem

namespace Node

theorem get?_drawn (n : Node) (k : String) :
    n.drawn.get? k =
      if k = "href" then some (.str (selectLink n.id))
      else if k = "group" then (n.group.map GroupName.value).or (n.attributes.get? "group")
      else n.attributes.get? k := by
  unfold drawn
  dsimp only
  rw [Table.get?_insert]
  split
  · rfl
  · cases n.group with
    | none =>
        by_cases hname : k = "group"
        · rw [if_pos hname, hname, Option.map_none, Option.none_or]
        · rw [if_neg hname]
    | some group => exact Table.get?_insert _ _ _ _

theorem Legible.drawn {n : Node} (h : n.Legible) : n.drawn.Legible := by
  unfold Node.drawn
  refine .insert ?_ (by decide) trivial
  split
  · next group hn => exact h.attributes.insert (by decide) (h.group group hn).1
  · exact h.attributes

/-- The statement of a node is decoded if what the node holds is legible. -/
theorem Legible.decodesTo {n : Node} (hlegible : n.Legible) (h : n.WellFormed) :
    n.DecodesTo n.drawn.reread where
  line_eq indent := by
    rw [← h.id_eq]
    rfl
  drawn := hlegible.drawn.decodesTo_reread
  contains_iff k := by
    have habsent := Table.contains_eq_false_iff.1 h.contains_group
    rw [Attributes.contains_reread_iff, get?_drawn]
    by_cases hlink : k = "href"
    · simp [hlink]
    by_cases hname : k = "group"
    · rw [if_neg hlink, if_pos hname, hname, habsent, Option.or_none]
      cases hn : n.group with
      | none => simp
      | some group => simp [(hlegible.group group hn).2]
    · simp [hlink, hname]
  get?_id := by
    rw [← h.id_eq]
    apply Attributes.get?_reread_of_plain
    · rw [get?_drawn, if_neg (by decide), if_neg (by decide), h.get?_id]
    · rw [h.id_eq]
      exact backslash_notMem_of_isIdText (Identifier.isIdText_ofNode n.name)
  get?_href := by
    rw [← h.id_eq]
    apply Attributes.get?_reread_of_plain
    · rw [get?_drawn, if_pos rfl]
    · rw [h.id_eq]
      exact backslash_notMem_selectLink (Identifier.isIdText_ofNode n.name)

theorem legible_fresh {attributes : Attributes} (h : attributes.Legible) (name : String)
    {group : Option GroupName} (hgroup : ∀ g ∈ group, attributes.wantedGroup? = some g.value)
    (missing : Bool) : (Node.fresh (.str name) attributes group missing).Legible where
  attributes := h.ofNode name _
  group g hg := h.isReadable_of_wantedGroup? (hgroup g hg)

end Node

/-! ## Edges -/

namespace Edge

theorem get?_drawn (e : Edge) (k : String) :
    e.drawn.get? k =
      if k = "id" then some (.str e.marks)
      else if k = "edgetooltip" then some (.str e.tooltip)
      else e.attributes.get? k := by
  rw [drawn, Table.get?_insert, Table.get?_insert]

theorem legible_drawn {e : Edge} (h : e.attributes.Legible) : e.drawn.Legible := by
  have htooltip : Attributes.Legible (e.attributes.insert "edgetooltip" (.str e.tooltip)) :=
    h.insert (by decide) trivial
  exact htooltip.insert (by decide) trivial

/-- The statement of an edge is decoded if the attributes that the edge holds are legible. -/
theorem decodesTo_reread {e : Edge} (h : e.WellFormed) (hattributes : e.attributes.Legible) :
    e.DecodesTo e.drawn.reread where
  line_eq := by
    rw [← h.sourceId_eq, ← h.targetId_eq]
    rfl
  drawn := (legible_drawn hattributes).decodesTo_reread
  contains_iff k := by
    rw [Attributes.contains_reread_iff, get?_drawn]
    by_cases hid : k = "id"
    · simp [hid]
    by_cases htooltip : k = "edgetooltip"
    · simp [htooltip]
    · simp [hid, htooltip]
  get?_id := by
    have hmarks : '\\' ∉ e.marks.toList := by
      rw [toList_marks, List.mem_append, List.mem_cons, not_or, not_or]
      exact ⟨backslash_notMem_of_isIdText h.isIdText_tokens.1, by decide,
        backslash_notMem_of_isIdText h.isIdText_tokens.2⟩
    rw [← h.sourceId_eq, ← h.targetId_eq]
    apply Attributes.get?_reread_of_plain _ hmarks
    rw [get?_drawn, if_pos rfl]

end Edge

/-! ## Records that a diagram is given -/

namespace Diagram

/-- Legible attributes are not refused: a group among them can be a key. -/
theorem exists_addNode {d : Diagram} {attributes : Value} {extra : List (String × Value)}
    {combined : Attributes}
    (hcombined : Attributes.combine Node.reservedNames attributes extra = .ok combined)
    (h : combined.Legible) (name : Value) :
    ∃ group : Option GroupName, group.map GroupName.value = combined.wantedGroup? ∧
      (d.addNode name attributes extra).2 = .ok (.fresh name combined group false) := by
  simp only [addNode, hcombined]
  rcases d.register_cases name combined false with ⟨group, hgroup, heq⟩ | ⟨v, -, hv, hkey, -⟩
  · exact ⟨group, hgroup.symm, by rw [heq]⟩
  · exact absurd hkey (Attributes.key?_ne_none_of_isReadable (h.isReadable_of_wantedGroup? hv).1)

/-- Whatever diagram a run has come to: a node that is given legible attributes is registered, an
edge that is given legible attributes is added, missing nodes come in if theirs are legible, and the
statements of all of them are decoded, with the identifiers, links and marks that they must have. -/
theorem statement_lists_decode (options : Options) (steps : List Step) :
    (∀ name attributes extra combined,
      Attributes.combine Node.reservedNames attributes extra = .ok combined →
      combined.Legible →
        ∃ n read, (((new options).run steps).addNode (.str name) attributes extra).2 = .ok n ∧
          n.name = .str name ∧ n.attributes = combined.ofNode n.name (Identifier.ofNode n.name) ∧
          n.group.map GroupName.value = combined.wantedGroup? ∧ n.DecodesTo read) ∧
    (∀ given, Attributes.recognized (options.value .missingNode) = .ok given →
      given.Legible →
        ∃ created, ((new options).run steps).synthesize.2 = .ok created ∧
          ∀ n ∈ created, n.attributes = given.ofNode n.name (Identifier.ofNode n.name) ∧
            n.group = none ∧ ∀ name, n.name = .str name → ∃ read, n.DecodesTo read) ∧
    ∀ source target attributes extra combined,
      Attributes.combine Edge.reservedNames attributes extra = .ok combined →
      combined.Legible →
        ∃ e read, (((new options).run steps).addEdge source target attributes extra).2 = .ok e ∧
          e.source = source ∧ e.target = target ∧ e.attributes = combined ∧ e.DecodesTo read := by
  refine ⟨?_, ?_, ?_⟩
  · intro name attributes extra combined hcombined hlegible
    obtain ⟨group, hwanted, hadded⟩ := exists_addNode hcombined hlegible (.str name)
    have hgroup : ∀ g ∈ group, combined.wantedGroup? = some g.value := by
      rintro g rfl
      exact hwanted.symm
    have hnode := Node.legible_fresh hlegible name hgroup false
    exact ⟨_, _, hadded, rfl, rfl, hwanted, hnode.decodesTo (Node.wellFormed_fresh _ _ nofun)⟩
  · intro given hgiven hlegible
    have hd : ((new options).run steps).WellFormed := wellFormed_run options steps
    have hoptions : Attributes.recognized (((new options).run steps).options.value .missingNode) =
        .ok given := by rw [options_run, hgiven]
    refine ⟨_, congrArg Prod.snd (hd.synthesize_eq hoptions), fun n hn => ?_⟩
    obtain ⟨⟨_, id⟩, -, rfl⟩ := List.mem_map.1 hn
    refine ⟨rfl, rfl, fun name hname => ?_⟩
    cases hname
    have hnode : (Node.fresh (.str name) given none true).Legible :=
      Node.legible_fresh hlegible name (fun _ hg => by cases hg) true
    exact ⟨_, hnode.decodesTo (Node.wellFormed_fresh _ _ fun _ => rfl)⟩
  · intro source target attributes extra combined hcombined hlegible
    refine ⟨⟨source, Identifier.ofNode source, target, Identifier.ofNode target, combined⟩, _, ?_,
      rfl, rfl, rfl, Edge.decodesTo_reread ⟨rfl, rfl⟩ hlegible⟩
    simp only [addEdge, hcombined]

/-- Callers that use the names of all marks, a group in markup, an unset attribute, and a title with
a line end of the drawing program. -/
theorem statements_of_colliding_names :
    ∃ (d : Diagram) (n : Node) (created : List Node) (e : Edge) (node edge : Attributes),
      (d.addNode (.str "A") (.ofFields [("id", .str "x"), ("group", .str "<<g>>"),
        ("title", .str "a\\nb"), ("style", .null)]) [("href", .str "y")]).2 = .ok n ∧
      n.DecodesTo node ∧ node.get? "id" = some (.str "r_a") ∧
      node.get? "href" = some (.str (selectLink "r_a")) ∧
      node.get? "group" = some (.markup "<<g>>") ∧ node.get? "title" ≠ some (.str "a\\nb") ∧
      node.contains "style" = false ∧
      d.synthesize.2 = .ok created ∧ created.map Node.id = ["r_b"] ∧
      (∀ m ∈ created, ∃ read, m.DecodesTo read) ∧
      (d.addEdge (.str "A") (.str "B") .null
        [("edgetooltip", .str "x"), ("id", .str "y")]).2 = .ok e ∧
      e.DecodesTo edge ∧ edge.get? "id" = some (.str "f_r_a t_r_b") := by
  let options := Options.defaults.set .missingNode (.ofFields [("href", .str "y")])
  let steps : List Step := [.node (.str "A") .null [], .edge (.str "A") (.str "B") .null []]
  let combined : Attributes := ⟨[("id", .str "x"), ("group", .markup "<<g>>"),
    ("title", .str "a\\nb"), ("style", .null), ("href", .str "y")], by decide⟩
  let given : Attributes := ⟨[("href", .str "y")], by decide⟩
  let marks : Attributes := ⟨[("edgetooltip", .str "x"), ("id", .str "y")], by decide⟩
  obtain ⟨hnode, hmissing, hedge⟩ := statement_lists_decode options steps
  obtain ⟨n, node, hn, hname, hattributes, hgroup, hdecodes⟩ := hnode "A"
    (.ofFields [("id", .str "x"), ("group", .str "<<g>>"), ("title", .str "a\\nb"),
      ("style", .null)]) [("href", .str "y")] combined rfl (by decide +kernel)
  obtain ⟨created, hcreated, hall⟩ := hmissing given rfl (by decide +kernel)
  obtain ⟨e, edge, he, hsource, htarget, -, hedges⟩ :=
    hedge (.str "A") (.str "B") .null [("edgetooltip", .str "x"), ("id", .str "y")] marks rfl
      (by decide +kernel)
  have hid : Identifier.ofNode (.str "A") = "r_a" := by decide +kernel
  have hmarks : sourceToken (Identifier.ofNode (.str "A")) ++ " " ++
      targetToken (Identifier.ofNode (.str "B")) = "f_r_a t_r_b" := by decide +kernel
  rw [hname, hid] at hattributes
  have htitle : n.drawn.get? "title" = some (.str "a\\nb") := by
    rw [n.get?_drawn, if_neg (by decide), if_neg (by decide), hattributes]
    rfl
  have hstyle : n.attributes.get? "style" = some .null := by
    rw [hattributes]
    rfl
  have hgrouped : n.drawn.get? "group" = some (.markup "<<g>>") := by
    rw [n.get?_drawn, if_neg (by decide), if_pos rfl, hgroup]
    rfl
  cases (show ((new options).run steps).synthesize.2 =
    .ok [.fresh (.str "B") given none true] from rfl).symm.trans hcreated
  refine ⟨_, n, _, e, node, edge, hn, hdecodes, ?_, ?_, ?_, ?_, ?_, hcreated, by decide +kernel, ?_,
    he, hedges, ?_⟩
  · rw [hdecodes.get?_id, hname, hid]
  · rw [hdecodes.get?_href, hname, hid]
  · exact (hdecodes.drawn.get?_iff _ _ hgrouped nofun).2 nofun
  · intro hread
    have hends : ['\\', 'n'] <:+: "a\\nb".toList := by decide +kernel
    exact (hdecodes.drawn.get?_iff _ _ htitle nofun).1 hread _ rfl 'n' (by decide) hends
  · rw [Bool.eq_false_iff]
    intro hread
    rcases (hdecodes.contains_iff "style").1 hread with hlink | ⟨hname, -⟩ | ⟨v, hv, hne⟩
    · exact absurd hlink (by decide)
    · exact absurd hname (by decide)
    · cases hstyle.symm.trans hv
      exact hne rfl
  · intro m hm
    exact (hall m hm).2.2 "B" (by rw [List.mem_singleton.1 hm]; rfl)
  · rw [hedges.get?_id, hsource, htarget, hmarks]

end Diagram

end HighlightGraph
