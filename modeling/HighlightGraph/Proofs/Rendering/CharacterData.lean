import HighlightGraph.Proofs.Diagram.Consistency
import HighlightGraph.Proofs.Identifier
import HighlightGraph.Proofs.Rendering.Embedding
import HighlightGraph.Proofs.Stylesheet
/-!
# The stylesheet as character data

A stylesheet stands in a picture as a section of character data, which ends at its first end mark.
Selectors hold no part of this mark, and the mark cannot arise where two parts of the stylesheet
meet; so the section holds the whole stylesheet unless one of the texts that the options give has
the mark in it.
-/

namespace HighlightGraph

def sectionOpening : String := "<defs><style type=\"text/css\"><![CDATA["

def sectionEnd : List Char := [']', ']', '>']

/-- What a section of character data holds, given the text behind its opening: all up to the first
end mark. -/
def sectionText? : List Char → Option (List Char)
  | [] => none
  | c :: rest =>
    if sectionEnd.isPrefixOf (c :: rest) then some []
    else (sectionText? rest).map (c :: ·)

/-- Whether one of the texts that the options give for the stylesheet has an end mark in it. -/
def Options.HasSectionEnd (o : Options) : Prop :=
  ∃ setting ∈ [Setting.fromStyle, .toStyle, .css], ∃ s, o.value setting = .str s ∧
    sectionEnd <:+: s.toList

/-! ## Sections -/

theorem sectionEnd_not_infix_of_notMem {cs : List Char} (h : '>' ∉ cs) : ¬ sectionEnd <:+: cs :=
  fun hmark => h (hmark.subset (by decide))

/-- No part of the end mark is at once a beginning of another one. -/
theorem sectionEnd_isPrefix_append {xs ys : List Char} (hne : xs ≠ [])
    (h : sectionEnd <+: xs ++ (sectionEnd ++ ys)) : sectionEnd <+: xs := by
  match xs, h with
  | [], _ => exact absurd rfl hne
  | [a], h => simp [sectionEnd] at h
  | [a, b], h => simp [sectionEnd] at h
  | a :: b :: c :: rest, h =>
      simp only [sectionEnd, List.cons_append, List.cons_prefix_cons, List.nil_prefix] at h ⊢
      exact h

/-- The section before an end mark holds what stands there, or ends even earlier. -/
theorem exists_sectionText? (xs ys : List Char) :
    ∃ content, sectionText? (xs ++ (sectionEnd ++ ys)) = some content ∧ content <+: xs ∧
      (content = xs ↔ ¬ sectionEnd <:+: xs) := by
  induction xs with
  | nil => exact ⟨[], rfl, List.nil_prefix, by decide⟩
  | cons c rest ih =>
      rw [List.cons_append, sectionText?]
      split
      · next hend =>
        rw [List.isPrefixOf_iff_prefix, ← List.cons_append] at hend
        have hmark := sectionEnd_isPrefix_append (List.cons_ne_nil c rest) hend
        exact ⟨[], rfl, List.nil_prefix, iff_of_false (List.cons_ne_nil c rest).symm
          (not_not_intro hmark.isInfix)⟩
      · next hend =>
        obtain ⟨content, hcontent, hpart, hall⟩ := ih
        rw [List.isPrefixOf_iff_prefix] at hend
        have hmark : ¬ sectionEnd <+: c :: rest :=
          fun hmark => hend (hmark.trans (List.prefix_append _ _))
        rw [hcontent]
        refine ⟨c :: content, rfl, List.cons_prefix_cons.2 ⟨rfl, hpart⟩, ?_⟩
        rw [List.cons_inj_right, hall, List.infix_cons_iff, or_iff_right hmark]

/-! ## Stylesheets -/

/-- The mark cannot reach over a character that it does not have. -/
theorem sectionEnd_infix_append_cons {c : Char} (hc : c ∉ sectionEnd) (xs ys : List Char) :
    sectionEnd <:+: xs ++ c :: ys ↔ sectionEnd <:+: xs ∨ sectionEnd <:+: ys := by
  have hfirst : ∀ {part : List Char}, part ⊆ sectionEnd → part <+: c :: ys → part = [] := by
    intro part hpart hbegins
    cases part with
    | nil => rfl
    | cons d rest =>
        rw [(List.cons_prefix_cons.1 hbegins).1] at hpart
        exact absurd (hpart List.mem_cons_self) hc
  rw [List.infix_append_iff, List.infix_cons_iff]
  constructor
  · rintro (hxs | (hbegins | hys) | ⟨first, second, hparts, hends, hbegins⟩)
    · exact .inl hxs
    · cases hfirst (List.Subset.refl _) hbegins
    · exact .inr hys
    · have hsecond : second = [] :=
        hfirst (by rw [hparts]; exact List.subset_append_right _ _) hbegins
      rw [hsecond, List.append_nil] at hparts
      exact .inl (hparts ▸ hends.isInfix)
  · rintro (hxs | hys)
    · exact .inl hxs
    · exact .inr (.inl (.inr hys))

theorem notMem_intercalate {c : Char} {separator : List Char} (hseparator : c ∉ separator)
    {pieces : List (List Char)} (hpieces : ∀ piece ∈ pieces, c ∉ piece) :
    c ∉ separator.intercalate pieces := by
  induction pieces with
  | nil => exact List.not_mem_nil
  | cons piece rest ih =>
      rw [List.forall_mem_cons] at hpieces
      cases rest with
      | nil =>
          rw [List.intercalate_singleton]
          exact hpieces.1
      | cons next later =>
          rw [List.intercalate_cons_cons]
          simp only [List.mem_append, not_or]
          exact ⟨⟨hpieces.1, hseparator⟩, ih hpieces.2⟩

namespace Selector

theorem bracket_notMem_text {s : Selector} (hid : Identifier.IsIdText s.id)
    (htoken : Identifier.IsIdText s.token) : '>' ∉ s.text.toList := by
  have hid' : '>' ∉ s.id.toList := hid.notMem (by decide)
  have htoken' : '>' ∉ s.token.toList := htoken.notMem (by decide)
  simp only [text, String.toList_append, List.mem_append, not_or]
  exact ⟨⟨⟨⟨by decide, hid'⟩, by decide⟩, htoken'⟩, by decide⟩

theorem sectionEnd_infix_rule_append {selectors : List Selector}
    (h : ∀ s ∈ selectors, '>' ∉ s.text.toList) (style rest : String) :
    sectionEnd <:+: (rule selectors style ++ rest).toList ↔
      sectionEnd <:+: style.toList ∨ sectionEnd <:+: rest.toList := by
  have hjoined : '>' ∉ (",\n".intercalate (selectors.map text)).toList := by
    rw [String.toList_intercalate]
    refine notMem_intercalate (by decide) fun piece hpiece => ?_
    simp only [List.mem_map] at hpiece
    obtain ⟨_, ⟨s, hs, rfl⟩, rfl⟩ := hpiece
    exact h s hs
  have hparts : (rule selectors style ++ rest).toList =
      (",\n".intercalate (selectors.map text)).toList ++
        '\x7b' :: (style.toList ++ '\x7d' :: (['\n'] ++ '\n' :: rest.toList)) := by
    simp [rule]
  rw [hparts, sectionEnd_infix_append_cons (by decide), sectionEnd_infix_append_cons (by decide),
    sectionEnd_infix_append_cons (by decide), or_iff_right (sectionEnd_not_infix_of_notMem hjoined),
    or_iff_right (sectionEnd_not_infix_of_notMem (by decide : '>' ∉ ['\n']))]

end Selector

theorem Diagram.Consistent.bracket_notMem_selectors {d : Diagram} (h : d.Consistent)
    {mark : String} (hmark : Identifier.IsIdText mark) :
    ∀ s ∈ d.selectors mark, '>' ∉ s.text.toList := by
  intro s hs
  obtain ⟨n, hn, rfl⟩ := List.mem_map.1 hs
  obtain ⟨id, hindexed⟩ := Table.mem_values_iff.1 ((mem_placedNodes_iff_mem_nodes h).1 hn)
  have hid : Identifier.IsIdText n.id := by
    rw [(h.nodes hindexed).2.id_eq]
    exact Identifier.isIdText_ofNode n.name
  exact Selector.bracket_notMem_text hid (hmark.append hid)

theorem Diagram.Consistent.sectionEnd_infix_stylesheetText_iff {d : Diagram} (h : d.Consistent)
    {css : String} (hcss : d.stylesheetText = .ok css) :
    sectionEnd <:+: css.toList ↔ d.options.HasSectionEnd := by
  obtain ⟨source, target, further, hsource, htarget, hfurther, rfl⟩ := written_stylesheetText hcss
  have hlast : sectionEnd <:+: (further ++ "\n").toList ↔ sectionEnd <:+: further.toList := by
    rw [String.toList_append]
    exact (sectionEnd_infix_append_cons (by decide) _ _).trans (or_iff_left (by decide))
  rw [String.append_assoc, String.append_assoc,
    Selector.sectionEnd_infix_rule_append (h.bracket_notMem_selectors (by decide)),
    Selector.sectionEnd_infix_rule_append (h.bracket_notMem_selectors (by decide)), hlast]
  simp [Options.HasSectionEnd, hsource, htarget, hfurther]

/-! ## Pictures -/

theorem toList_styleElement (css : String) :
    (styleElement css).toList = sectionOpening.toList ++
      ('\n' :: (css.toList ++ ['\n']) ++ (sectionEnd ++ "</style></defs>\n".toList)) := by
  have hopening : "<defs><style type=\"text/css\"><![CDATA[\n".toList =
      sectionOpening.toList ++ ['\n'] := by decide +kernel
  have hending : "\n]]></style></defs>\n".toList =
      '\n' :: (sectionEnd ++ "</style></defs>\n".toList) := by decide +kernel
  have hparts : ∀ opening ending : String,
      (opening ++ css ++ ending).toList = opening.toList ++ css.toList ++ ending.toList := by
    intro opening ending
    rw [String.toList_append, String.toList_append]
  calc (styleElement css).toList
      = "<defs><style type=\"text/css\"><![CDATA[\n".toList ++ css.toList ++
          "\n]]></style></defs>\n".toList := hparts _ _
    _ = (sectionOpening.toList ++ ['\n']) ++ css.toList ++
          '\n' :: (sectionEnd ++ "</style></defs>\n".toList) :=
        congrArg₂ (fun opening ending => opening ++ css.toList ++ ending) hopening hending
    _ = _ := by
        simp only [List.append_assoc, List.cons_append, List.nil_append]

theorem FirstTag.exists_section {svg : String} {i j : Nat} (h : FirstTag svg.toList i j)
    (css : String) :
    ∃ picture behind content, embedStylesheet? svg css = some picture ∧
      picture.toList = svg.toList.take (j + 1) ++ (sectionOpening.toList ++ behind) ∧
      sectionText? behind = some content ∧ content <+: '\n' :: (css.toList ++ ['\n']) ∧
      (content = '\n' :: (css.toList ++ ['\n']) ↔ ¬ sectionEnd <:+: css.toList) := by
  let text := '\n' :: (css.toList ++ ['\n'])
  let after := "</style></defs>\n".toList ++ svg.toList.drop (j + 1)
  have hpicture : (insertBehind svg j (styleElement css)).toList =
      svg.toList.take (j + 1) ++ (sectionOpening.toList ++ (text ++ (sectionEnd ++ after))) := by
    simp only [insertBehind, String.toList_append, String.toList_ofList, toList_styleElement,
      List.append_assoc, text, after]
  have htext : sectionEnd <:+: text ↔ sectionEnd <:+: css.toList := by
    have hend := sectionEnd_infix_append_cons (c := '\n') (by decide) css.toList []
    have hbegin := sectionEnd_infix_append_cons (c := '\n') (by decide) [] (css.toList ++ ['\n'])
    rw [or_iff_left (by decide)] at hend
    rw [or_iff_right (by decide)] at hbegin
    exact hbegin.trans hend
  obtain ⟨content, hcontent, hpart, hall⟩ := exists_sectionText? text after
  exact ⟨_, _, content, h.embedStylesheet?_eq css, hpicture, hcontent, hpart,
    hall.trans (not_congr htext)⟩

/-- The section of character data that an embedded stylesheet makes ends with the stylesheet, if
none of the texts that the options give for it has an end mark, and inside of it otherwise. -/
theorem section_holds_stylesheet_iff {d : Diagram} (h : d.Reached) {css : String}
    (hcss : d.stylesheetText = .ok css) {svg : String} {i j : Nat}
    (hsvg : FirstTag svg.toList i j) :
    ∃ picture behind content, embedStylesheet? svg css = some picture ∧
      picture.toList = svg.toList.take (j + 1) ++ (sectionOpening.toList ++ behind) ∧
      sectionText? behind = some content ∧ content <+: '\n' :: (css.toList ++ ['\n']) ∧
      (content = '\n' :: (css.toList ++ ['\n']) ↔ ¬ d.options.HasSectionEnd) := by
  obtain ⟨picture, behind, content, hembed, hpicture, hcontent, hpart, hall⟩ :=
    hsvg.exists_section css
  exact ⟨picture, behind, content, hembed, hpicture, hcontent, hpart,
    hall.trans (not_congr (h.consistent.sectionEnd_infix_stylesheetText_iff hcss))⟩

/-- One style ends like the mark begins, the other and the further rules begin like it ends. -/
theorem section_of_split_marks :
    ∃ (d : Diagram) (css picture : String) (behind : List Char), d.Reached ∧
      d.options.value .fromStyle = .str "color: red]]" ∧ d.options.value .css = .str "]>" ∧
      d.stylesheetText = .ok css ∧ embedStylesheet? "<svg></svg>" css = some picture ∧
      picture.toList = "<svg>".toList ++ (sectionOpening.toList ++ behind) ∧
      sectionText? behind = some ('\n' :: (css.toList ++ ['\n'])) := by
  let options := ((Options.defaults.set .fromStyle (.str "color: red]]")).set .toStyle
    (.str ">")).set .css (.str "]>")
  let steps : List Step := [.node (.str "A") .null [("group", .str "]]>")]]
  let d := (Diagram.new options).run steps
  have hd : d.Reached := ⟨options, steps, by decide +kernel, rfl⟩
  have hoptions : d.options = options := Diagram.options_run options steps
  obtain ⟨css, hcss⟩ := exists_ok_of_isOk (x := d.stylesheetText) (by decide +kernel)
  have hsvg : FirstTag "<svg></svg>".toList 0 4 :=
    ⟨by decide, by decide, by decide, by decide, by decide⟩
  obtain ⟨picture, behind, content, hembed, hpicture, hcontent, -, hall⟩ :=
    section_holds_stylesheet_iff hd hcss hsvg
  have hplain : ¬ d.options.HasSectionEnd := by
    rw [hoptions]
    rintro ⟨setting, hsetting, s, hs, hend⟩
    simp only [List.mem_cons, List.not_mem_nil, or_false] at hsetting
    rcases hsetting with rfl | rfl | rfl <;> cases hs <;> revert hend <;> decide
  refine ⟨d, css, picture, behind, hd, ?_, ?_, hcss, hembed, hpicture, ?_⟩
  · rw [hoptions]
    rfl
  · rw [hoptions]
    rfl
  · rw [hcontent, hall.2 hplain]

/-- Further rules with the mark in a text of theirs end the section there. -/
theorem section_can_end_inside_stylesheet :
    ¬ ∀ (given : Value) (options : Options) (steps : List Step),
      Options.ofValue given = .ok options → (Diagram.new options).accepts steps = true →
        ∀ (css svg : String) (i j : Nat),
          ((Diagram.new options).run steps).stylesheetText = .ok css →
          FirstTag svg.toList i j →
            ∃ picture behind, embedStylesheet? svg css = some picture ∧
              picture.toList = svg.toList.take (j + 1) ++ (sectionOpening.toList ++ behind) ∧
              sectionText? behind = some ('\n' :: (css.toList ++ ['\n'])) := by
  intro hclaim
  let further : Value := .str "a::after \x7b content: \"]]>\" \x7d"
  let options := Options.defaults.set .css further
  have hoptions : Options.ofValue (.map [(.str "css", further)]) = .ok options := rfl
  let d := Diagram.new options
  have hd : d.Consistent := Diagram.Reached.consistent ⟨options, [], rfl, rfl⟩
  obtain ⟨css, hcss⟩ := exists_ok_of_isOk (x := d.stylesheetText) rfl
  have hsvg : FirstTag "<svg></svg>".toList 0 4 :=
    ⟨by decide, by decide, by decide, by decide, by decide⟩
  obtain ⟨picture, behind, hembed, hpicture, htext⟩ :=
    hclaim _ options [] hoptions rfl css _ 0 4 hcss hsvg
  obtain ⟨picture', behind', content, hembed', hpicture', hcontent, -, hall⟩ :=
    hsvg.exists_section css
  rw [hembed, Option.some.injEq] at hembed'
  subst hembed'
  rw [hpicture, List.append_cancel_left_eq, List.append_cancel_left_eq] at hpicture'
  subst hpicture'
  rw [htext, Option.some.injEq] at hcontent
  refine hall.1 hcontent.symm ((hd.sectionEnd_infix_stylesheetText_iff hcss).2 ?_)
  exact ⟨.css, by decide, _, rfl, by decide⟩

end HighlightGraph
