import HighlightGraph.Proofs.Attributes.Values
import HighlightGraph.Proofs.Diagram.Connect
import HighlightGraph.Proofs.Drawing.NodeAgreement
import HighlightGraph.Proofs.Identifier
/-!
# Highlighting marks the ends of edges

A selector of the stylesheet applies to the edges that have its token among the words of their
identifier. Identifiers hold no blanks and the two kinds of token differ in their first letter, so
the words of an edge are its two tokens, and the selectors of a node apply to the edges that leave
it and to those that reach it.
-/

namespace HighlightGraph

/-- The words of a text: what stands between its blanks. -/
def Text.words (cs : List Char) : List (List Char) :=
  (cs.splitOnP isBlank).filter fun word => !word.isEmpty

/-- Whether a selector applies to an element: its token is a word of the identifier. -/
def Selector.appliesTo (s : Selector) (id : String) : Bool :=
  (Text.words id.toList).contains s.token.toList

/-! ## Words -/

namespace Text

theorem words_append_blank {c : Char} (hc : isBlank c = true) (cs ds : List Char) :
    words (cs ++ c :: ds) = words cs ++ words ds := by
  rw [words, words, words, List.splitOnP_append_cons _ _ hc, List.filter_append]

theorem words_of_plain {cs : List Char} (hne : cs ≠ []) (h : ∀ c ∈ cs, isBlank c = false) :
    words cs = [cs] := by
  rw [words, List.splitOnP_eq_singleton h, List.filter_singleton, List.isEmpty_eq_false_iff.2 hne]
  rfl

end Text

/-! ## Tokens -/

theorem sourceToken_inj {id other : String} : sourceToken id = sourceToken other ↔ id = other :=
  String.append_right_inj "f_"

theorem targetToken_inj {id other : String} : targetToken id = targetToken other ↔ id = other :=
  String.append_right_inj "t_"

theorem sourceToken_ne_targetToken (id other : String) : sourceToken id ≠ targetToken other := by
  intro h
  have hchars := congrArg String.toList h
  rw [sourceToken, targetToken, String.toList_append, String.toList_append] at hchars
  cases (List.cons.inj hchars).1

theorem isIdText_sourceToken {id : String} (h : Identifier.IsIdText id) :
    Identifier.IsIdText (sourceToken id) :=
  .append (by decide) h

theorem isIdText_targetToken {id : String} (h : Identifier.IsIdText id) :
    Identifier.IsIdText (targetToken id) :=
  .append (by decide) h

theorem isBlank_of_isIdChar {c : Char} (h : Identifier.isIdChar c = true) :
    Text.isBlank c = false := by
  have hc := Identifier.toNat_of_isIdChar h
  exact Attributes.isBlank_eq_false (by omega) (by omega)

theorem toList_marks (e : Edge) :
    e.marks.toList = (sourceToken e.sourceId).toList ++ ' ' :: (targetToken e.targetId).toList := by
  rw [Edge.marks, String.toList_append, String.toList_append, List.append_assoc]
  rfl

theorem Edge.WellFormed.isIdText_tokens {e : Edge} (h : e.WellFormed) :
    Identifier.IsIdText (sourceToken e.sourceId) ∧
      Identifier.IsIdText (targetToken e.targetId) := by
  rw [h.sourceId_eq, h.targetId_eq]
  exact ⟨isIdText_sourceToken (Identifier.isIdText_ofNode _),
    isIdText_targetToken (Identifier.isIdText_ofNode _)⟩

theorem words_of_isIdText {s : String} (hne : s.toList ≠ []) (h : Identifier.IsIdText s) :
    Text.words s.toList = [s.toList] :=
  Text.words_of_plain hne fun _ hc => isBlank_of_isIdChar (h.isIdChar hc)

theorem Edge.marks_eq (e : Edge) : e.marks = "f_" ++ e.sourceId ++ " t_" ++ e.targetId := by
  simp only [marks, sourceToken, targetToken, String.append_assoc]
  rfl

theorem words_marks {e : Edge} (h : e.WellFormed) :
    Text.words e.marks.toList =
      [(sourceToken e.sourceId).toList, (targetToken e.targetId).toList] := by
  have hsource : (sourceToken e.sourceId).toList ≠ [] := by
    rw [sourceToken, String.toList_append]
    exact List.cons_ne_nil _ _
  have htarget : (targetToken e.targetId).toList ≠ [] := by
    rw [targetToken, String.toList_append]
    exact List.cons_ne_nil _ _
  rw [toList_marks, Text.words_append_blank rfl, words_of_isIdText hsource h.isIdText_tokens.1,
    words_of_isIdText htarget h.isIdText_tokens.2]
  rfl

theorem appliesTo_marks_iff {e : Edge} (h : e.WellFormed) {s : Selector} :
    s.appliesTo e.marks = true ↔
      s.token = sourceToken e.sourceId ∨ s.token = targetToken e.targetId := by
  rw [Selector.appliesTo, words_marks h, List.contains_iff_mem, List.mem_cons, List.mem_singleton,
    String.toList_inj, String.toList_inj]

theorem sourceToken_appliesTo_iff {e : Edge} (h : e.WellFormed) {id : String} :
    Selector.appliesTo ⟨id, "f_" ++ id⟩ e.marks = true ↔ e.sourceId = id := by
  have htoken : "f_" ++ id = sourceToken id := rfl
  rw [appliesTo_marks_iff h, htoken, sourceToken_inj, eq_comm]
  exact or_iff_left (sourceToken_ne_targetToken _ _)

theorem targetToken_appliesTo_iff {e : Edge} (h : e.WellFormed) {id : String} :
    Selector.appliesTo ⟨id, "t_" ++ id⟩ e.marks = true ↔ e.targetId = id := by
  have htoken : "t_" ++ id = targetToken id := rfl
  rw [appliesTo_marks_iff h, htoken, targetToken_inj, eq_comm (a := id)]
  exact or_iff_right fun heq => sourceToken_ne_targetToken _ _ heq.symm

theorem formatItem_marks {e : Edge} (h : e.WellFormed) :
    Attributes.formatItem ("id", .str e.marks) = "id=\"" ++ e.marks ++ "\";" := by
  -- The characters of tokens and the blank between them are written as they are.
  have hplain : ∀ {c : Char}, Identifier.isIdChar c = true →
      0x20 ≤ c.toNat ∧ c ≠ '"' ∧ c ≠ '\\' := by
    intro c hc
    have hrange := Identifier.toNat_of_isIdChar hc
    refine ⟨by omega, ?_, ?_⟩ <;> rintro rfl <;> revert hrange <;> decide
  have hmarks : ∀ c ∈ e.marks.toList, 0x20 ≤ c.toNat ∧ c ≠ '"' ∧ c ≠ '\\' := by
    intro c hc
    rw [toList_marks, List.mem_append, List.mem_cons] at hc
    rcases hc with hc | rfl | hc
    · exact hplain (h.isIdText_tokens.1.isIdChar hc)
    · decide
    · exact hplain (h.isIdText_tokens.2.isIdChar hc)
  have hformat : (Value.str e.marks).format.toList = '"' :: (e.marks.toList ++ ['"']) := by
    rw [Attributes.format_str, Attributes.Quoted.encode_of_plain hmarks]
  rw [← String.toList_inj, Attributes.formatItem]
  simp only [String.toList_append, hformat]
  simp

/-! ## Edge lines -/

theorem Attributes.listText_of_entries {attributes : Attributes} {item : String × Value}
    {before after : List (String × Value)} (h : attributes.entries = before ++ item :: after)
    (hset : isSet item = true) :
    attributes.listText =
      " [ " ++ " ".intercalate (items before ++ formatItem item :: items after) ++ " ]" := by
  have hitems : items attributes.entries = items before ++ formatItem item :: items after := by
    rw [h, items, List.filter_append, List.filter_cons_of_pos hset, List.map_append, List.map_cons]
    rfl
  have htext : attributes.text ≠ "" := by
    intro hempty
    have hinfix : (formatItem item).toList <:+: attributes.text.toList := by
      rw [text, hitems, String.toList_intercalate]
      exact infix_intercalate (List.mem_map_of_mem (by simp))
    rw [hempty] at hinfix
    have hnil := List.infix_nil.1 hinfix
    simp [formatItem] at hnil
  rw [listText, if_neg htext, text, hitems]

/-- The line of an edge holds one item under the name of the identifier: the one that marks it. -/
theorem exists_text_edge {e : Edge} (h : e.WellFormed) :
    ∃ before after,
      e.drawn.entries = before ++ ("id", .str e.marks) :: after ∧
      (∀ item ∈ before ++ after, item.1 ≠ "id") ∧
      (Drawing.Line.edge (.ofEdge e)).text = "  " ++ e.sourceId ++ " -> " ++ e.targetId ++ " [ " ++
        " ".intercalate (Attributes.items before ++ ("id=\"" ++ e.marks ++ "\";") ::
          Attributes.items after) ++ " ];" := by
  have hmem : ("id", .str e.marks) ∈ e.drawn.entries :=
    Table.mem_entries_iff.2 (Table.get?_insert_self _ _ _)
  obtain ⟨before, after, hentries⟩ := List.append_of_mem hmem
  refine ⟨before, after, hentries, ?_, ?_⟩
  · have hnodup := e.drawn.nodup_keys
    rw [hentries, List.map_append, List.map_cons, List.nodup_middle, List.nodup_cons,
      ← List.map_append] at hnodup
    intro item hitem hid
    exact hnodup.1 (List.mem_map.2 ⟨item, hitem, hid⟩)
  · rw [← formatItem_marks h]
    show "  " ++ e.sourceId ++ " -> " ++ e.targetId ++ e.drawn.listText ++ ";" = _
    rw [Attributes.listText_of_entries hentries rfl]
    simp only [String.append_assoc]
    rfl

/-! ## Selected edges -/

namespace Diagram

/-- Selectors of which only the one of an indexed node applies to an element apply to it once. -/
theorem filter_appliesTo_selectors {d : Diagram} (h : d.Consistent) {mark marks id : String}
    (hid : d.nodes.contains id = true)
    (happlies : ∀ other, Selector.appliesTo ⟨other, mark ++ other⟩ marks = true ↔ id = other) :
    (d.selectors mark).filter (·.appliesTo marks) = [⟨id, mark ++ id⟩] := by
  have hmem : id ∈ d.placedNodes.map Node.id := by
    obtain ⟨n, hn⟩ := Table.contains_iff.1 hid
    have hplaced : n ∈ d.placedNodes :=
      (mem_placedNodes_iff_mem_nodes h).2 (Table.mem_values_iff.2 ⟨id, hn⟩)
    exact (h.nodes hn).1 ▸ List.mem_map_of_mem hplaced
  let selector (other : String) : Selector := ⟨other, mark ++ other⟩
  calc
    (d.selectors mark).filter (·.appliesTo marks)
      = ((d.placedNodes.map Node.id).map selector).filter (·.appliesTo marks) := by
        rw [List.map_map]
        rfl
    _ = ((d.placedNodes.map Node.id).filter fun other => decide (other = id)).map selector := by
        rw [List.filter_map]
        congr 1
        apply List.filter_congr
        intro other _
        rw [Bool.eq_iff_iff, Function.comp_apply, happlies, decide_eq_true_eq, eq_comm]
    _ = [selector id] := by
        rw [List.filter_eq, List.count_eq_one_of_mem (nodup_map_id_placedNodes h) hmem]
        rfl

/-- The line of an edge holds the two tokens of its ends as its identifier, whatever attributes it
came with. The selectors of a node apply to the edges that leave it and to those that reach it, and
to no others; after synthesis one selector for sources and one for targets applies to every edge. -/
theorem tokens_select_incident_edges {d : Diagram} (h : d.Reached) :
    (∀ text, d.drawingText = .ok text → ∃ g, Drawing.ofDiagram d = .ok g ∧
      text = "\n".intercalate (g.outline.map Drawing.Line.text) ++ "\n" ∧
      Drawing.edgeTexts g.outline = d.edges.map fun e => (Drawing.Line.edge (.ofEdge e)).text) ∧
      (∀ e ∈ d.edges, ∃ before after,
        e.drawn.entries =
          before ++ ("id", .str ("f_" ++ e.sourceId ++ " t_" ++ e.targetId)) :: after ∧
        (∀ item ∈ before ++ after, item.1 ≠ "id") ∧
        (Drawing.Line.edge (.ofEdge e)).text =
          "  " ++ e.sourceId ++ " -> " ++ e.targetId ++ " [ " ++
            " ".intercalate (Attributes.items before ++
              ("id=\"" ++ ("f_" ++ e.sourceId ++ " t_" ++ e.targetId) ++ "\";") ::
                Attributes.items after) ++ " ];") ∧
      (∀ sheet, d.stylesheetText = .ok sheet →
        Selector.Written d.options (d.selectors "f_") (d.selectors "t_") sheet) ∧
      (∀ n ∈ d.nodes.values,
        ⟨n.id, "f_" ++ n.id⟩ ∈ d.selectors "f_" ∧ ⟨n.id, "t_" ++ n.id⟩ ∈ d.selectors "t_" ∧
        ∀ e ∈ d.edges,
          (Selector.appliesTo ⟨n.id, "f_" ++ n.id⟩ ("f_" ++ e.sourceId ++ " t_" ++ e.targetId) ↔
            e.sourceId = n.id) ∧
          (Selector.appliesTo ⟨n.id, "t_" ++ n.id⟩ ("f_" ++ e.sourceId ++ " t_" ++ e.targetId) ↔
            e.targetId = n.id)) ∧
      ∀ after created, d.synthesize = (after, .ok created) → after.edges = d.edges ∧
        (∀ sheet, after.stylesheetText = .ok sheet →
          Selector.Written d.options (after.selectors "f_") (after.selectors "t_") sheet) ∧
        ∀ e ∈ after.edges,
          (after.selectors "f_").filter
              (·.appliesTo ("f_" ++ e.sourceId ++ " t_" ++ e.targetId)) =
            [⟨e.sourceId, "f_" ++ e.sourceId⟩] ∧
          (after.selectors "t_").filter
              (·.appliesTo ("f_" ++ e.sourceId ++ " t_" ++ e.targetId)) =
            [⟨e.targetId, "t_" ++ e.targetId⟩] := by
  have hd : d.WellFormed := h.consistent.toWellFormed
  refine ⟨?_, ?_, fun _ => written_stylesheetText, ?_, ?_⟩
  · intro text htext
    obtain ⟨g, hg, rfl⟩ := map_eq_ok htext
    refine ⟨g, hg, Drawing.text_eq_document g, ?_⟩
    rw [Drawing.edgeTexts, Drawing.filter_isEdge_outline, (Drawing.ofDiagram_eq_ok hg).2.2.1,
      List.map_map, List.map_map]
    rfl
  · intro e he
    rw [← e.marks_eq]
    exact exists_text_edge (hd.edges he)
  · intro n hn
    have hplaced := (mem_placedNodes_iff_mem_nodes h.consistent).2 hn
    refine ⟨List.mem_map_of_mem hplaced, List.mem_map_of_mem hplaced, fun e he => ?_⟩
    rw [← e.marks_eq]
    exact ⟨sourceToken_appliesTo_iff (hd.edges he), targetToken_appliesTo_iff (hd.edges he)⟩
  · intro after created hsynthesize
    have hedges : after.edges = d.edges := by rw [← edges_synthesize d, hsynthesize]
    have hoptions : after.options = d.options := by
      have hstep := d.options_step .synthesize
      rwa [step, hsynthesize] at hstep
    have hafter := (h.synthesize hsynthesize).consistent
    refine ⟨hedges, fun sheet hsheet => hoptions ▸ written_stylesheetText hsheet, fun e he => ?_⟩
    rw [hedges] at he
    have hsource : e.sourceId ∈ d.ends.map Prod.snd := mem_ends_iff.2 ⟨e, he, Or.inl rfl⟩
    have htarget : e.targetId ∈ d.ends.map Prod.snd := mem_ends_iff.2 ⟨e, he, Or.inr rfl⟩
    rw [← e.marks_eq]
    exact ⟨filter_appliesTo_selectors hafter (hd.contains_of_synthesize hsynthesize hsource)
        fun _ => sourceToken_appliesTo_iff (hd.edges he),
      filter_appliesTo_selectors hafter (hd.contains_of_synthesize hsynthesize htarget)
        fun _ => targetToken_appliesTo_iff (hd.edges he)⟩

/-- The identifier of `A` begins that of `A b`, and the edge comes with an identifier of its own. -/
theorem tokens_of_nested_names :
    let d := (new .defaults).run [.node (.str "A") .null [],
      .edge (.str "A b") (.str "A") .null [("id", .str "f_r_a")]]
    d.drawingText = .ok (
      "digraph G \x7b\n  id=\"g\";\n  rankdir=\"LR\";\n  node [ shape=\"box3d\"; ];\n" ++
      "  edge [ fontsize=7; color=\"black\"; ];\n\n" ++
      "  r_a [ label=\"A\"; id=\"r_a\"; href=\"javascript:(function()\x7bdocument" ++
      ".getElementById('g').setAttribute('class', 'graph r_a')\x7d)()\"; ];\n\n" ++
      "  r_a_b -> r_a [ id=\"f_r_a_b t_r_a\"; edgetooltip=\"A b -&gt; A\"; ];\n\x7d\n") ∧
    Selector.appliesTo ⟨"r_a", "f_r_a"⟩ "f_r_a_b t_r_a" = false ∧
    ∃ after created, d.synthesize = (after, .ok created) ∧
      after.stylesheetText = .ok (
        "#g.r_a [id~=f_r_a] path,\n#g.r_a_b [id~=f_r_a_b] path" ++
        "\x7bstroke: red; stroke-width: 4px;\x7d\n\n" ++
        "#g.r_a [id~=t_r_a] path,\n#g.r_a_b [id~=t_r_a_b] path" ++
        "\x7bstroke: green; stroke-width: 4px;\x7d\n\n.node \x7b cursor: pointer; \x7d\n") ∧
      (after.selectors "f_").filter (·.appliesTo "f_r_a_b t_r_a") = [⟨"r_a_b", "f_r_a_b"⟩] ∧
      (after.selectors "t_").filter (·.appliesTo "f_r_a_b t_r_a") = [⟨"r_a", "t_r_a"⟩] := by
  intro d
  have hd : d.Reached := ⟨.defaults, _, by decide +kernel, rfl⟩
  obtain ⟨created, hcreated⟩ := exists_ok_of_isOk (x := d.synthesize.2) (by decide +kernel)
  have hsynthesize : d.synthesize = (d.synthesize.1, .ok created) := Prod.ext rfl hcreated
  let e : Edge := ⟨.str "A b", "r_a_b", .str "A", "r_a", .ofList [("id", .str "f_r_a")]⟩
  have he : e ∈ d.edges := List.mem_singleton_self e
  obtain ⟨_, _, _, _, hafter⟩ := tokens_select_incident_edges hd
  obtain ⟨hsame, _, hselected⟩ := hafter _ _ hsynthesize
  obtain ⟨hsource, htarget⟩ := hselected e (hsame ▸ he)
  exact ⟨by decide +kernel, by decide +kernel, _, created, hsynthesize, by decide +kernel, hsource,
    htarget⟩

end Diagram

end HighlightGraph
