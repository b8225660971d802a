import HighlightGraph.Rendering
import Mathlib.Data.Nat.Find
/-!
# Where a stylesheet goes into a picture

A stylesheet is put in behind the first opening tag of a picture: no later tag is looked at, as
whatever closes a later one stands behind the first one as well. What is put in leaves the text up
to there as it was, so the next stylesheet goes to the same position.
-/

namespace HighlightGraph

/-- Whether an opening tag of a picture begins at a position of a text. -/
def TagAt (cs : List Char) (i : Nat) : Prop := openingTag <+: cs.drop i

instance (cs : List Char) (i : Nat) : Decidable (TagAt cs i) :=
  inferInstanceAs (Decidable (openingTag <+: cs.drop i))

/-- Whether a text has an opening tag of a picture with a `>` behind it. -/
def HasTag (cs : List Char) : Prop :=
  ∃ i j, TagAt cs i ∧ i + openingTag.length ≤ j ∧ cs[j]? = some '>'

/-- The first opening tag of a text begins at one position and is closed at another, by the first
`>` behind its beginning. -/
structure FirstTag (cs : List Char) (i j : Nat) : Prop where
  tag : TagAt cs i
  tag_first : ∀ m < i, ¬ TagAt cs m
  length_le : i + openingTag.length ≤ j
  bracket : cs[j]? = some '>'
  bracket_first : ∀ m < j, i + openingTag.length ≤ m → cs[m]? ≠ some '>'

def insertBehind (s : String) (j : Nat) (inserted : String) : String :=
  String.ofList (s.toList.take (j + 1)) ++ inserted ++ String.ofList (s.toList.drop (j + 1))

/-! ## Tags, character by character -/

variable {cs : List Char} {i j : Nat}

theorem tagAt_iff :
    TagAt cs i ↔ ∀ (n : Nat) (h : n < openingTag.length), cs[i + n]? = some openingTag[n] := by
  simp only [TagAt, List.prefix_iff_getElem?, List.getElem?_drop]

theorem TagAt.congr {ds : List Char} (h : TagAt cs i)
    (heq : ∀ n < i + openingTag.length, cs[n]? = ds[n]?) : TagAt ds i := by
  rw [tagAt_iff] at h ⊢
  intro n hn
  rw [← heq (i + n) (by omega), h n hn]

/-- No character of the beginning of a tag closes it. -/
theorem TagAt.getElem?_ne_bracket (h : TagAt cs i) {m : Nat} (hle : i ≤ m)
    (hlt : m < i + openingTag.length) : cs[m]? ≠ some '>' := by
  have hm := tagAt_iff.1 h (m - i) (by omega)
  rw [Nat.add_sub_cancel' hle] at hm
  rw [hm, ne_eq, Option.some.injEq]
  exact ne_of_mem_of_not_mem (List.getElem_mem _) (by decide)

theorem isPrefixOf_iff_tagAt_zero : openingTag.isPrefixOf cs = true ↔ TagAt cs 0 :=
  List.isPrefixOf_iff_prefix

/-! ## Splitting a text -/

theorem splitAfterBracket_of_first (hbracket : cs[j]? = some '>')
    (hfirst : ∀ m < j, cs[m]? ≠ some '>') :
    splitAfterBracket cs = some (cs.take (j + 1), cs.drop (j + 1)) := by
  induction cs generalizing j with
  | nil => cases hbracket
  | cons c rest ih =>
      cases j with
      | zero =>
          rw [splitAfterBracket, if_pos (Option.some.inj hbracket)]
          rfl
      | succ j =>
          have hc : c ≠ '>' := by
            rintro rfl
            exact hfirst 0 (Nat.succ_pos j) rfl
          rw [splitAfterBracket, if_neg hc,
            ih hbracket fun m hm => hfirst (m + 1) (Nat.succ_lt_succ hm)]
          rfl

theorem splitAfterBracket_eq_none (h : '>' ∉ cs) : splitAfterBracket cs = none := by
  induction cs with
  | nil => rfl
  | cons c rest ih =>
      rw [List.mem_cons, not_or] at h
      rw [splitAfterBracket, if_neg (Ne.symm h.1), ih h.2]
      rfl

theorem FirstTag.splitAfterTag_eq (h : FirstTag cs i j) :
    splitAfterTag cs = some (cs.take (j + 1), cs.drop (j + 1)) := by
  induction cs generalizing i j with
  | nil => cases h.bracket
  | cons c rest ih =>
      rw [splitAfterTag]
      cases i with
      | zero =>
          rw [if_pos (isPrefixOf_iff_tagAt_zero.2 h.tag)]
          refine splitAfterBracket_of_first h.bracket fun m hm => ?_
          by_cases hlt : m < 0 + openingTag.length
          · exact h.tag.getElem?_ne_bracket (Nat.zero_le m) hlt
          · exact h.bracket_first m hm (by omega)
      | succ i =>
          have hle := h.length_le
          obtain ⟨k, rfl⟩ : ∃ k, j = k + 1 := ⟨j - 1, by omega⟩
          have hrest : FirstTag rest i k := {
            tag := h.tag
            tag_first := fun m hm => h.tag_first (m + 1) (by omega)
            length_le := by omega
            bracket := h.bracket
            bracket_first := fun m hm hle => h.bracket_first (m + 1) (by omega) (by omega) }
          have hc : ¬ openingTag.isPrefixOf (c :: rest) = true :=
            mt isPrefixOf_iff_tagAt_zero.1 (h.tag_first 0 (Nat.succ_pos i))
          rw [if_neg hc, ih hrest]
          rfl

theorem splitAfterTag_eq_none (h : ¬ HasTag cs) : splitAfterTag cs = none := by
  induction cs with
  | nil => rfl
  | cons c rest ih =>
      rw [splitAfterTag]
      split
      · next hopens =>
        have htag := isPrefixOf_iff_tagAt_zero.1 hopens
        apply splitAfterBracket_eq_none
        intro hmem
        obtain ⟨j, hj⟩ := List.mem_iff_getElem?.1 hmem
        by_cases hlt : j < 0 + openingTag.length
        · exact htag.getElem?_ne_bracket (Nat.zero_le j) hlt hj
        · exact h ⟨0, j, htag, by omega, hj⟩
      · have hrest : ¬ HasTag rest := by
          rintro ⟨i, j, htag, hle, hbracket⟩
          exact h ⟨i + 1, j + 1, htag, by omega, hbracket⟩
        rw [ih hrest]
        rfl

/-- If any opening tag is closed, the first one is. -/
theorem HasTag.exists_firstTag (h : HasTag cs) : ∃ i j, FirstTag cs i j := by
  obtain ⟨i, j, htag, hle, hbracket⟩ := h
  have hopens : ∃ i, TagAt cs i := ⟨i, htag⟩
  have hcloses : ∃ j, Nat.find hopens + openingTag.length ≤ j ∧ cs[j]? = some '>' := by
    have hfirst := Nat.find_min' hopens htag
    exact ⟨j, by omega, hbracket⟩
  refine ⟨Nat.find hopens, Nat.find hcloses, Nat.find_spec hopens, fun m => Nat.find_min hopens,
    (Nat.find_spec hcloses).1, (Nat.find_spec hcloses).2, ?_⟩
  intro m hm hle' hbracket'
  exact Nat.find_min hcloses hm ⟨hle', hbracket'⟩

theorem FirstTag.hasTag (h : FirstTag cs i j) : HasTag cs :=
  ⟨i, j, h.tag, h.length_le, h.bracket⟩

/-- The first tag depends on nothing behind it. -/
theorem FirstTag.congr {ds : List Char} (h : FirstTag cs i j)
    (heq : ∀ n ≤ j, cs[n]? = ds[n]?) : FirstTag ds i j where
  tag := by
    have hle := h.length_le
    exact h.tag.congr fun n hn => heq n (by omega)
  tag_first m hm htag := by
    have hle := h.length_le
    exact h.tag_first m hm (htag.congr fun n hn => (heq n (by omega)).symm)
  length_le := h.length_le
  bracket := by rw [← heq j (Nat.le_refl j), h.bracket]
  bracket_first m hm hle := by
    rw [← heq m (Nat.le_of_lt hm)]
    exact h.bracket_first m hm hle

/-! ## Embedding -/

section Embedding

variable {svg : String} (h : FirstTag svg.toList i j)
include h

theorem FirstTag.embedStylesheet?_eq (css : String) :
    embedStylesheet? svg css = some (insertBehind svg j (styleElement css)) := by
  rw [embedStylesheet?, h.splitAfterTag_eq]
  rfl

theorem FirstTag.length_take : (svg.toList.take (j + 1)).length = j + 1 := by
  obtain ⟨hlt, -⟩ := List.getElem?_eq_some_iff.1 h.bracket
  exact List.length_take_of_le hlt

theorem FirstTag.stays_first (inserted : String) :
    FirstTag (insertBehind svg j inserted).toList i j := by
  apply h.congr
  intro n hn
  rw [insertBehind, String.toList_append, String.toList_append, String.toList_ofList,
    List.append_assoc, List.getElem?_append_left (by rw [h.length_take]; omega),
    List.getElem?_take, if_pos (by omega)]

theorem FirstTag.insertBehind_insertBehind (inserted later : String) :
    insertBehind (insertBehind svg j inserted) j later =
      insertBehind svg j (later ++ inserted) := by
  have hlength := h.length_take
  rw [← String.toList_inj]
  simp only [insertBehind, String.toList_append, String.toList_ofList,
    List.append_assoc]
  rw [List.take_left' hlength, List.drop_left' hlength]

theorem FirstTag.delete_insertBehind (inserted : String) :
    (insertBehind svg j inserted).toList.take (j + 1) ++
      (insertBehind svg j inserted).toList.drop
        (j + 1 + inserted.toList.length) = svg.toList := by
  have hlength := h.length_take
  simp only [insertBehind, String.toList_append, String.toList_ofList]
  rw [List.append_assoc, List.take_left' hlength, ← List.append_assoc,
    List.drop_left' (by rw [List.length_append, hlength]), List.take_append_drop]

end Embedding

theorem embedStylesheet?_eq_none_iff {svg css : String} :
    embedStylesheet? svg css = none ↔ ¬ HasTag svg.toList := by
  constructor
  · intro hnone htag
    obtain ⟨i, j, hfirst⟩ := htag.exists_firstTag
    rw [hfirst.embedStylesheet?_eq] at hnone
    cases hnone
  · intro htag
    rw [embedStylesheet?, splitAfterTag_eq_none htag]
    rfl

/-- The stylesheet stands inside the picture that it is put into. -/
theorem embedStylesheet?_eq_some {svg css picture : String}
    (h : embedStylesheet? svg css = some picture) :
    ∃ before after, svg = before ++ after ∧ picture = before ++ styleElement css ++ after := by
  by_cases htag : HasTag svg.toList
  · obtain ⟨i, j, hfirst⟩ := htag.exists_firstTag
    rw [hfirst.embedStylesheet?_eq] at h
    cases h
    refine ⟨String.ofList (svg.toList.take (j + 1)), String.ofList (svg.toList.drop (j + 1)), ?_,
      rfl⟩
    rw [← String.ofList_append, List.take_append_drop, String.ofList_toList]
  · rw [embedStylesheet?_eq_none_iff.2 htag] at h
    cases h

/-- A picture without a closed opening tag is refused. Any other one takes the stylesheet right
behind its first opening tag and is otherwise left as it was; the tag stays the first one, so that a
later stylesheet goes in at the same position, right before the one that is there. -/
theorem embedding_inserts_behind_first_tag (svg css : String) :
    (embedStylesheet? svg css = none ↔ ¬ HasTag svg.toList) ∧
    (HasTag svg.toList ↔ ∃ i j, FirstTag svg.toList i j) ∧
    (∀ (d : Diagram) (engine : Engine) (source : String),
      engine source = .ok svg → d.stylesheetText = .ok css →
        d.layOut engine source =
          (embedStylesheet? svg css).elim (.error RenderError.noOpeningTag) .ok) ∧
    ∀ i j, FirstTag svg.toList i j →
      let picture := insertBehind svg j (styleElement css)
      embedStylesheet? svg css = some picture ∧
        picture.toList.take (j + 1) ++
          picture.toList.drop (j + 1 + (styleElement css).toList.length) = svg.toList ∧
        FirstTag picture.toList i j ∧
        ∀ later, embedStylesheet? picture later =
          some (insertBehind svg j (styleElement later ++ styleElement css)) := by
  refine ⟨embedStylesheet?_eq_none_iff, ⟨HasTag.exists_firstTag, ?_⟩, ?_, ?_⟩
  · rintro ⟨i, j, hfirst⟩
    exact hfirst.hasTag
  · intro d engine source hsvg hcss
    simp only [Diagram.layOut, hsvg, hcss, Except.mapError, bind, Except.bind]
    cases embedStylesheet? svg css <;> rfl
  · intro i j hfirst picture
    have hstays := hfirst.stays_first (styleElement css)
    refine ⟨hfirst.embedStylesheet?_eq css, hfirst.delete_insertBehind _, hstays, fun later => ?_⟩
    rw [hstays.embedStylesheet?_eq, hfirst.insertBehind_insertBehind]

/-- The first tag begins inside a comment, whose end closes it; the stylesheet has a tag as well. -/
theorem embedding_behind_a_tag_in_a_comment :
    let svg := "<!--<svg--><svg></svg>"
    let picture := insertBehind svg 10 (styleElement "<svg>")
    FirstTag svg.toList 4 10 ∧ embedStylesheet? svg "<svg>" = some picture ∧
      picture = "<!--<svg-->" ++ styleElement "<svg>" ++ "<svg></svg>" ∧
      embedStylesheet? picture "" =
        some (insertBehind svg 10 (styleElement "" ++ styleElement "<svg>")) := by
  intro svg picture
  have hfirst : FirstTag svg.toList 4 10 :=
    ⟨by decide, by decide, by decide, by decide, by decide⟩
  obtain ⟨-, -, -, hembed⟩ := embedding_inserts_behind_first_tag svg "<svg>"
  obtain ⟨hpicture, -, -, hlater⟩ := hembed 4 10 hfirst
  exact ⟨hfirst, hpicture, by decide, hlater ""⟩

end HighlightGraph
