import HighlightGraph.Proofs.Drawing.Alike
/-!
# Texts cannot change the structure of a drawing

Documents of diagrams that differ only in what texts say differ only in what stands inside quoted
literals. Line by line the two documents agree, whatever quotes, backslashes, line ends and brackets
the texts hold.
-/

namespace HighlightGraph

open Attributes (ItemAlike)
open Attributes.Quoted (AgreeText agreeText_of_plain agreeText_intercalate)

/-! ## Lines -/

theorem agree_settingLines {indent : String} (hindent : '"' ∉ indent.toList)
    {settings others : List (String × Value)} (h : List.Forall₂ ItemAlike settings others) :
    List.Forall₂ AgreeText (settingLines indent settings) (settingLines indent others) := by
  rw [settingLines, settingLines, List.forall₂_map_left_iff, List.forall₂_map_right_iff]
  exact (Attributes.agree_items h).imp fun _ _ hitem =>
    (agreeText_of_plain hindent).append hitem

theorem agree_defaultLines {indent : String} (hindent : '"' ∉ indent.toList) (kind : String)
    (hkind : '"' ∉ kind.toList) {attributes others : Attributes} (h : attributes.Alike others) :
    List.Forall₂ AgreeText (defaultLines indent kind attributes)
      (defaultLines indent kind others) := by
  have hlist := h.agree_listText
  have hend : AgreeText ";" ";" := agreeText_of_plain (by decide)
  unfold defaultLines
  by_cases hempty : attributes.listText = ""
  · rw [if_pos hempty, if_pos (hlist.eq_empty_iff.1 hempty)]
    exact .nil
  · rw [if_neg hempty, if_neg (mt hlist.eq_empty_iff.2 hempty)]
    have hhead := (agreeText_of_plain hindent).append (agreeText_of_plain hkind)
    exact .cons ((hhead.append hlist).append hend) .nil

theorem NodeStatement.Alike.agree_line {s t : NodeStatement} (h : s.Alike t) {indent : String}
    (hindent : '"' ∉ indent.toList) : AgreeText (s.line indent) (t.line indent) := by
  have hend : AgreeText ";" ";" := agreeText_of_plain (by decide)
  rw [line, line, ← h.id_eq]
  have hhead := (agreeText_of_plain hindent).append (agreeText_of_plain h.id_plain)
  exact (hhead.append h.attributes.agree_listText).append hend

theorem agree_nodeLines {indent : String} (hindent : '"' ∉ indent.toList)
    {nodes others : List NodeStatement} (h : List.Forall₂ NodeStatement.Alike nodes others) :
    List.Forall₂ AgreeText (nodes.map (·.line indent)) (others.map (·.line indent)) := by
  rw [List.forall₂_map_left_iff, List.forall₂_map_right_iff]
  exact h.imp fun _ _ hnode => hnode.agree_line hindent

theorem EdgeStatement.Alike.agree_line {s t : EdgeStatement} (h : s.Alike t) :
    AgreeText s.line t.line := by
  have hindent : AgreeText "  " "  " := agreeText_of_plain (by decide)
  have harrow : AgreeText " -> " " -> " := agreeText_of_plain (by decide)
  have hend : AgreeText ";" ";" := agreeText_of_plain (by decide)
  have hsource := agreeText_of_plain h.source_plain
  have htarget := agreeText_of_plain h.target_plain
  rw [line, line, ← h.source_eq, ← h.target_eq]
  exact ((((hindent.append hsource).append harrow).append htarget).append
    h.attributes.agree_listText).append hend

theorem Subgraph.Alike.agree_lines {s t : Subgraph} (h : s.Alike t) :
    List.Forall₂ AgreeText s.lines t.lines := by
  have hindent : '"' ∉ "    ".toList := by decide
  have hopening : List.Forall₂ AgreeText ["  subgraph " ++ s.id ++ " \x7b"]
      ["  subgraph " ++ t.id ++ " \x7b"] := by
    rw [← h.id_eq]
    have hhead := (agreeText_of_plain (s := "  subgraph ") (by decide)).append
      (agreeText_of_plain h.id_plain)
    exact .cons (hhead.append (agreeText_of_plain (by decide))) .nil
  have hfragment : List.Forall₂ AgreeText s.fragment.toList t.fragment.toList := by
    rw [h.fragment.1, h.fragment.2]
    exact .nil
  have hclosing : List.Forall₂ AgreeText ["  \x7d", ""] ["  \x7d", ""] :=
    .cons (agreeText_of_plain (by decide)) (.cons (agreeText_of_plain (by decide)) .nil)
  have hsettings := agree_settingLines hindent h.settings
  have hnodeDefaults := agree_defaultLines hindent "node" (by decide) h.nodeDefaults
  have hedgeDefaults := agree_defaultLines hindent "edge" (by decide) h.edgeDefaults
  have hnodes := agree_nodeLines hindent h.nodes
  exact List.rel_append (List.rel_append (List.rel_append (List.rel_append (List.rel_append
    (List.rel_append hopening hsettings) hnodeDefaults) hedgeDefaults) hnodes) hfragment) hclosing

theorem agreeText_rankLines {ids : List String} (h : ∀ id ∈ ids, '"' ∉ id.toList) :
    List.Forall₂ AgreeText (rankLines ids) (rankLines ids) := by
  unfold rankLines
  split
  · exact .nil
  · have hids : List.Forall₂ AgreeText (ids.map (· ++ ";")) (ids.map (· ++ ";")) := by
      rw [List.forall₂_same]
      intro line hline
      obtain ⟨id, hid, rfl⟩ := List.mem_map.1 hline
      exact (agreeText_of_plain (h id hid)).append (agreeText_of_plain (by decide))
    have hopening : AgreeText "  \x7b rank=same; " "  \x7b rank=same; " :=
      agreeText_of_plain (by decide)
    have hclosing : AgreeText " \x7d" " \x7d" := agreeText_of_plain (by decide)
    exact .cons ((hopening.append (agreeText_intercalate (by decide) hids)).append hclosing) .nil

theorem Drawing.Alike.agree_lines {g h : Drawing} (halike : g.Alike h) :
    List.Forall₂ AgreeText g.lines h.lines := by
  have hindent : '"' ∉ "  ".toList := by decide
  have hplain : ∀ {s : String}, '"' ∉ s.toList → List.Forall₂ AgreeText [s] [s] :=
    fun hs => .cons (agreeText_of_plain hs) .nil
  have hopening := hplain (s := "digraph G \x7b") (by decide)
  have hblank := hplain (s := "") (by decide)
  have hending := hplain (s := "\x7d") (by decide)
  have hfragment : List.Forall₂ AgreeText g.fragment.toList h.fragment.toList := by
    rw [halike.fragment.1, halike.fragment.2]
    exact .nil
  have hrank : List.Forall₂ AgreeText (rankLines g.sameRank) (rankLines h.sameRank) := by
    rw [← halike.sameRank_eq]
    exact agreeText_rankLines halike.sameRank_plain
  have hsettings := agree_settingLines hindent halike.settings
  have hnodeDefaults := agree_defaultLines hindent "node" (by decide) halike.nodeDefaults
  have hedgeDefaults := agree_defaultLines hindent "edge" (by decide) halike.edgeDefaults
  have hsubgraphs := List.rel_flatMap halike.subgraphs
    fun _ _ hsubgraph => Subgraph.Alike.agree_lines hsubgraph
  have hnodes := agree_nodeLines hindent halike.nodes
  have hedges : List.Forall₂ AgreeText (g.edges.map EdgeStatement.line)
      (h.edges.map EdgeStatement.line) := by
    rw [List.forall₂_map_left_iff, List.forall₂_map_right_iff]
    exact halike.edges.imp fun _ _ hedge => hedge.agree_line
  exact List.rel_append (List.rel_append (List.rel_append (List.rel_append (List.rel_append
    (List.rel_append (List.rel_append (List.rel_append (List.rel_append (List.rel_append
      (List.rel_append hopening hsettings) hnodeDefaults) hedgeDefaults) hblank) hsubgraphs) hnodes)
        hblank) hedges) hfragment) hrank) hending

theorem Drawing.Alike.agree_text {g h : Drawing} (halike : g.Alike h) :
    AgreeText g.text h.text :=
  (agreeText_intercalate (by decide) halike.agree_lines).append (agreeText_of_plain (by decide))

/-! ## Documents -/

/-- Two diagrams that are the same position by position but for what texts say are refused by the
drawing for the same reason, or are drawn by documents that are the same once the contents of all
quoted literals are blanked. -/
theorem drawing_structure_ignores_texts {o p : Options} {steps otherSteps : List Step}
    (h : ((Diagram.new o).run steps).Alike ((Diagram.new p).run otherSteps)) :
    SameOutcome
      (fun text other : String => ∃ blanked,
        Attributes.Quoted.blank? text.toList = some blanked ∧
        Attributes.Quoted.blank? other.toList = some blanked)
      ((Diagram.new o).run steps).drawingText ((Diagram.new p).run otherSteps).drawingText := by
  have hdrawing := Drawing.ofDiagram_alike h (Diagram.wellFormed_run o steps)
    (Diagram.wellFormed_run p otherSteps)
  exact hdrawing.map fun _ _ halike => halike.agree_text.blank?_eq

def plainSteps : List Step :=
  [.node (.str "A b") .null [("tooltip", .str "x")], .node (.str "C") .null [("group", .str "G 1")],
    .edge (.str "A b") (.str "C") .null []]

/-- The same diagram with texts that try to close their literals. -/
def hostileSteps : List Step :=
  [.node (.str "a\"B") .null [("tooltip", .str "\"];\n\\")],
    .node (.str "c") .null [("group", .str "g\\1")], .edge (.str "A]b") (.str "C") .null []]

theorem plain_and_hostile_alike :
    ((Diagram.new .defaults).run plainSteps).Alike ((Diagram.new .defaults).run hostileSteps) := by
  have hitem : ∀ {name s t : String}, Attributes.isName name = true →
      ItemAlike (name, .str s) (name, .str t) := fun h => ⟨rfl, h, .str _ _⟩
  have hfirst : Node.Alike
      (.fresh (.str "A b") (.ofList [("tooltip", .str "x")]) none false)
      (.fresh (.str "a\"B") (.ofList [("tooltip", .str "\"];\n\\")]) none false) := by
    refine ⟨by decide +kernel, ?_, .none⟩
    exact .cons (hitem (by decide)) (.cons (hitem (by decide)) (.cons (hitem (by decide)) .nil))
  have hsecond : Node.Alike
      (.fresh (.str "C") .empty (some ⟨.str "G 1", _, rfl⟩) false)
      (.fresh (.str "c") .empty (some ⟨.str "g\\1", _, rfl⟩) false) := by
    refine ⟨by decide +kernel, ?_, .some (.str _ _)⟩
    exact .cons (hitem (by decide)) (.cons (hitem (by decide)) .nil)
  exact {
    options := Options.alike_defaults
    nodes := .cons hfirst (.cons hsecond .nil)
    groups := .cons ⟨by decide +kernel, .str _ _, .cons hsecond .nil⟩ .nil
    external := .cons hfirst .nil
    edges := .cons ⟨by decide +kernel, by decide +kernel, .nil⟩ .nil }

theorem drawing_of_hostile_texts :
    ∃ text other blanked, ((Diagram.new .defaults).run plainSteps).drawingText = .ok text ∧
      ((Diagram.new .defaults).run hostileSteps).drawingText = .ok other ∧
      Attributes.Quoted.blank? text.toList = some blanked ∧
      Attributes.Quoted.blank? other.toList = some blanked := by
  have hsame := drawing_structure_ignores_texts plain_and_hostile_alike
  obtain ⟨text, htext⟩ := exists_ok_of_isOk
    (x := ((Diagram.new .defaults).run plainSteps).drawingText) (by decide +kernel)
  obtain ⟨other, hother⟩ := exists_ok_of_isOk
    (x := ((Diagram.new .defaults).run hostileSteps).drawingText) (by decide +kernel)
  rw [htext, hother] at hsame
  cases hsame with
  | ok hblank =>
    obtain ⟨blanked, hplain, hhostile⟩ := hblank
    exact ⟨text, other, blanked, htext, hother, hplain, hhostile⟩

end HighlightGraph
