import HighlightGraph.Attributes.Reader
import HighlightGraph.Proofs.Attributes.Quoted
import Mathlib.Data.List.Forall2
/-!
# Texts with their literals blanked

A document without the contents of its quoted literals shows its structure. Two pieces of text agree
when they blank to the same, whatever stands after them; so pieces can be put together one by one.
-/

namespace HighlightGraph.Attributes.Quoted

/-- A text with every quoted literal made empty, if all of them end. -/
def blank? (cs : List Char) : Option (List Char) :=
  match cs with
  | [] => some []
  | c :: rest =>
    if c = '"' then
      match _h : delimit rest with
      | some (_, after) => (blank? after).map fun blanked => '"' :: '"' :: blanked
      | none => none
    else (blank? rest).map (c :: ·)
termination_by cs.length
decreasing_by
  · have hlength := length_delimit_le _h
    simp only [List.length_cons]
    omega
  · simp

/-- Whether a piece of text blanks to another one, whatever stands after it. -/
def BlanksTo (piece blanked : List Char) : Prop :=
  ∀ rest, blank? (piece ++ rest) = (blank? rest).map (blanked ++ ·)

/-- Whether two pieces of text are the same but for the contents of literals. -/
def Agree (piece other : List Char) : Prop :=
  ∃ blanked, BlanksTo piece blanked ∧ BlanksTo other blanked

/-! ## Blanking piece by piece -/

theorem blank?_cons {c : Char} (hc : c ≠ '"') (rest : List Char) :
    blank? (c :: rest) = (blank? rest).map (c :: ·) := by
  rw [blank?, if_neg hc]

theorem blanksTo_nil : BlanksTo [] [] := by
  intro rest
  simp

theorem BlanksTo.append {piece blanked next blankedNext : List Char} (h : BlanksTo piece blanked)
    (hnext : BlanksTo next blankedNext) : BlanksTo (piece ++ next) (blanked ++ blankedNext) := by
  intro rest
  rw [List.append_assoc, h, hnext, Option.map_map]
  congr 1
  funext after
  exact (List.append_assoc _ _ _).symm

theorem blanksTo_of_plain {piece : List Char} (h : '"' ∉ piece) : BlanksTo piece piece := by
  intro rest
  induction piece with
  | nil => exact blanksTo_nil rest
  | cons c piece ih =>
      rw [List.mem_cons, not_or] at h
      rw [List.cons_append, blank?_cons (Ne.symm h.1), ih h.2, Option.map_map]
      rfl

theorem blanksTo_encode (cs : List Char) : BlanksTo (encode cs) ['"', '"'] := by
  intro rest
  have hdelimit := delimit_inside cs rest
  rw [encode_eq, List.cons_append, List.append_assoc, List.singleton_append, blank?, if_pos rfl]
  split
  · next after hafter =>
    rw [hdelimit] at hafter
    cases hafter
    rfl
  · next hnone =>
    rw [hdelimit] at hnone
    cases hnone

theorem BlanksTo.blank?_eq {piece blanked : List Char} (h : BlanksTo piece blanked) :
    blank? piece = some blanked := by
  have hend := h []
  rw [List.append_nil, blank?, Option.map_some, List.append_nil] at hend
  exact hend

theorem blank?_eq_some_nil {cs : List Char} (h : blank? cs = some []) : cs = [] := by
  cases cs with
  | nil => rfl
  | cons c rest =>
      rw [blank?] at h
      split at h
      · split at h
        · obtain ⟨blanked, -, hnil⟩ := Option.map_eq_some_iff.1 h
          cases hnil
        · cases h
      · obtain ⟨blanked, -, hnil⟩ := Option.map_eq_some_iff.1 h
        cases hnil

/-! ## Agreement -/

theorem agree_of_plain {piece : List Char} (h : '"' ∉ piece) : Agree piece piece :=
  ⟨piece, blanksTo_of_plain h, blanksTo_of_plain h⟩

theorem agree_encode (cs ds : List Char) : Agree (encode cs) (encode ds) :=
  ⟨_, blanksTo_encode cs, blanksTo_encode ds⟩

theorem Agree.append {piece other next otherNext : List Char} (h : Agree piece other)
    (hnext : Agree next otherNext) : Agree (piece ++ next) (other ++ otherNext) := by
  obtain ⟨blanked, hpiece, hother⟩ := h
  obtain ⟨blankedNext, hnext, hotherNext⟩ := hnext
  exact ⟨_, hpiece.append hnext, hother.append hotherNext⟩

theorem Agree.symm {piece other : List Char} (h : Agree piece other) : Agree other piece := by
  obtain ⟨blanked, hpiece, hother⟩ := h
  exact ⟨blanked, hother, hpiece⟩

theorem Agree.eq_nil {other : List Char} (h : Agree [] other) : other = [] := by
  obtain ⟨blanked, hpiece, hother⟩ := h
  have hblanked : blanked = [] := by
    have hend := hpiece.blank?_eq
    rw [blank?] at hend
    exact (Option.some.inj hend).symm
  exact blank?_eq_some_nil (hblanked ▸ hother.blank?_eq)

theorem agree_intercalate {separator : List Char} (hseparator : '"' ∉ separator)
    {pieces others : List (List Char)} (h : List.Forall₂ Agree pieces others) :
    Agree (separator.intercalate pieces) (separator.intercalate others) := by
  induction h with
  | nil => exact agree_of_plain (by simp)
  | @cons piece other pieces others hpiece hpieces ih =>
    cases hpieces with
    | nil => simpa using hpiece
    | cons hnext hrest =>
      rw [List.intercalate_cons_cons, List.intercalate_cons_cons]
      exact (hpiece.append (agree_of_plain hseparator)).append ih

/-! ### Strings -/

def AgreeText (s t : String) : Prop := Agree s.toList t.toList

theorem agreeText_of_plain {s : String} (h : '"' ∉ s.toList) : AgreeText s s := agree_of_plain h

theorem agreeText_encode (s t : String) :
    AgreeText (String.ofList (encode s.toList)) (String.ofList (encode t.toList)) := by
  rw [AgreeText, String.toList_ofList, String.toList_ofList]
  exact agree_encode s.toList t.toList

theorem AgreeText.symm {s t : String} (h : AgreeText s t) : AgreeText t s := Agree.symm h

theorem AgreeText.append {s t s' t' : String} (h : AgreeText s t) (h' : AgreeText s' t') :
    AgreeText (s ++ s') (t ++ t') := by
  rw [AgreeText, String.toList_append, String.toList_append]
  exact Agree.append h h'

theorem AgreeText.eq_empty_iff {s t : String} (h : AgreeText s t) : s = "" ↔ t = "" := by
  have hempty : ∀ {s t : String}, AgreeText s t → s = "" → t = "" := by
    rintro s t hagree rfl
    exact String.toList_eq_nil_iff.1 (Agree.eq_nil hagree)
  exact ⟨hempty h, hempty h.symm⟩

theorem agreeText_intercalate {separator : String} (hseparator : '"' ∉ separator.toList)
    {pieces others : List String} (h : List.Forall₂ AgreeText pieces others) :
    AgreeText (separator.intercalate pieces) (separator.intercalate others) := by
  rw [AgreeText, String.toList_intercalate, String.toList_intercalate]
  apply agree_intercalate hseparator
  rw [List.forall₂_map_left_iff, List.forall₂_map_right_iff]
  exact h

theorem AgreeText.blank?_eq {s t : String} (h : AgreeText s t) :
    ∃ blanked, blank? s.toList = some blanked ∧ blank? t.toList = some blanked := by
  obtain ⟨blanked, hs, ht⟩ := h
  exact ⟨blanked, hs.blank?_eq, ht.blank?_eq⟩

end HighlightGraph.Attributes.Quoted
