import HighlightGraph.Proofs.Result
import HighlightGraph.Stylesheet
import Mathlib.Data.List.Infix
/-!
# The text of a stylesheet

A selector names the node that is selected and the token of the edges that it is for. The stylesheet
of a diagram is written from two lists of selectors in the order of the places, and from the texts
that three of the options are.
-/

namespace HighlightGraph

theorem infix_intercalate {separator piece : List Char} {pieces : List (List Char)}
    (h : piece ∈ pieces) : piece <:+: separator.intercalate pieces := by
  induction pieces with
  | nil => cases h
  | cons first rest ih =>
      cases rest with
      | nil =>
          rw [List.mem_singleton.1 h, List.intercalate_singleton]
      | cons next later =>
          rw [List.intercalate_cons_cons]
          rcases List.mem_cons.1 h with rfl | h
          · exact (List.prefix_append piece separator).isInfix.trans
              (List.prefix_append _ _).isInfix
          · exact (ih h).trans (List.suffix_append _ _).isInfix

structure Selector where
  id : String
  token : String
deriving DecidableEq

namespace Selector

def text (s : Selector) : String := "#g." ++ s.id ++ " [id~=" ++ s.token ++ "] path"

theorem text_source (id : String) :
    text ⟨id, "f_" ++ id⟩ = "#g." ++ id ++ " [id~=f_" ++ id ++ "] path" := by
  have hopening : " [id~=f_" = " [id~=" ++ "f_" := rfl
  simp only [text, hopening, String.append_assoc]

theorem text_target (id : String) :
    text ⟨id, "t_" ++ id⟩ = "#g." ++ id ++ " [id~=t_" ++ id ++ "] path" := by
  have hopening : " [id~=t_" = " [id~=" ++ "t_" := rfl
  simp only [text, hopening, String.append_assoc]

def rule (selectors : List Selector) (style : String) : String :=
  ",\n".intercalate (selectors.map text) ++ "\x7b" ++ style ++ "\x7d\n\n"

theorem selector_eq_text (id token : String) : Stylesheet.selector id token = text ⟨id, token⟩ :=
  rfl

theorem text_infix_rule {selectors : List Selector} {s : Selector} (h : s ∈ selectors)
    (style : String) : s.text.toList <:+: (rule selectors style).toList := by
  have hjoined : s.text.toList <:+: (",\n".intercalate (selectors.map text)).toList := by
    rw [String.toList_intercalate]
    exact infix_intercalate (List.mem_map_of_mem (List.mem_map_of_mem h))
  simp only [rule, String.toList_append, List.append_assoc]
  exact hjoined.trans (List.prefix_append _ _).isInfix

end Selector

/-- The selectors of a diagram whose tokens begin with a mark, in the order of the places. -/
def Diagram.selectors (d : Diagram) (mark : String) : List Selector :=
  d.placedNodes.map fun n => ⟨n.id, mark ++ n.id⟩

/-- A stylesheet as it is written, with selectors for sources and for targets. -/
def Selector.Written (o : Options) (sources targets : List Selector) (sheet : String) : Prop :=
  ∃ source target further,
    o.value .fromStyle = .str source ∧ o.value .toStyle = .str target ∧
    o.value .css = .str further ∧
    sheet = rule sources source ++ rule targets target ++ further ++ "\n"

theorem Stylesheet.textOf_eq_ok_iff {v : Value} {s : String} : textOf v = .ok s ↔ v = .str s := by
  cases v <;> simp [textOf]

theorem Selector.Written.text_infix {o : Options} {sources targets : List Selector}
    {sheet : String} (h : Written o sources targets sheet) {s : Selector}
    (hs : s ∈ sources ∨ s ∈ targets) : s.text.toList <:+: sheet.toList := by
  obtain ⟨source, target, further, _, _, _, rfl⟩ := h
  simp only [String.toList_append, List.append_assoc]
  rcases hs with hs | hs
  · exact (text_infix_rule hs source).trans (List.prefix_append _ _).isInfix
  · exact (text_infix_rule hs target).trans
      ((List.prefix_append _ _).isInfix.trans (List.suffix_append _ _).isInfix)

theorem Diagram.written_stylesheetText {d : Diagram} {sheet : String}
    (h : d.stylesheetText = .ok sheet) :
    Selector.Written d.options (d.selectors "f_") (d.selectors "t_") sheet := by
  have hselectors : ∀ (mark : String) (token : String → String), (∀ id, token id = mark ++ id) →
      (d.placedNodes.map Node.id).map (fun id => Stylesheet.selector id (token id)) =
        (d.selectors mark).map Selector.text := by
    intro mark token htoken
    rw [selectors, List.map_map, List.map_map]
    apply List.map_congr_left
    intro n _
    rw [Function.comp_apply, htoken, Selector.selector_eq_text]
    rfl
  obtain ⟨s, hs, rfl⟩ := map_eq_ok h
  obtain ⟨source, hsource, hs⟩ := bind_eq_ok hs
  obtain ⟨target, htarget, hs⟩ := bind_eq_ok hs
  obtain ⟨further, hfurther, hs⟩ := bind_eq_ok hs
  cases hs
  refine ⟨source, target, further, Stylesheet.textOf_eq_ok_iff.1 hsource,
    Stylesheet.textOf_eq_ok_iff.1 htarget, Stylesheet.textOf_eq_ok_iff.1 hfurther, ?_⟩
  rw [Selector.rule, Selector.rule, ← hselectors "f_" sourceToken fun _ => rfl,
    ← hselectors "t_" targetToken fun _ => rfl]
  rfl

end HighlightGraph
