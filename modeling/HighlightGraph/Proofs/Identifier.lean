import HighlightGraph.Identifier
/-!
# Characters of identifiers

Whatever a name is, its identifier is made of small letters, digits and underscores.
-/

namespace HighlightGraph.Identifier

def isIdChar (c : Char) : Bool := isWordChar c || c = '_'

@[simp] theorem isWordChar_mark : isWordChar '_' = false := by decide

def IsIdText (s : String) : Prop := s.toList.all isIdChar = true

instance (s : String) : Decidable (IsIdText s) :=
  inferInstanceAs (Decidable (s.toList.all isIdChar = true))

theorem IsIdText.isIdChar {s : String} (h : IsIdText s) {c : Char} (hc : c ∈ s.toList) :
    Identifier.isIdChar c = true :=
  List.all_eq_true.1 h c hc

theorem IsIdText.notMem {s : String} (h : IsIdText s) {c : Char}
    (hc : Identifier.isIdChar c = false) : c ∉ s.toList := fun hmem => by
  rw [h.isIdChar hmem] at hc
  cases hc

theorem toNat_of_isIdChar {c : Char} (h : isIdChar c = true) :
    (0x30 ≤ c.toNat ∧ c.toNat ≤ 0x39) ∨ c.toNat = 0x5f ∨ (0x61 ≤ c.toNat ∧ c.toNat ≤ 0x7a) := by
  have hle : ∀ a b : Char, a ≤ b ↔ a.toNat ≤ b.toNat := fun a b => UInt32.le_iff_toNat_le
  simp only [isIdChar, isWordChar, Bool.or_eq_true, Bool.and_eq_true, decide_eq_true_eq, hle] at h
  rcases h with (hletter | hdigit) | rfl
  · exact Or.inr (Or.inr hletter)
  · exact Or.inl hdigit
  · exact Or.inr (Or.inl rfl)

theorem isIdChar_of_mem_collapse {inRun : Bool} {cs : List Char} {c : Char}
    (h : c ∈ collapse inRun cs) : isIdChar c = true := by
  induction cs generalizing inRun with
  | nil => cases h
  | cons d rest ih =>
      rw [collapse] at h
      split at h
      · next hword =>
        rcases List.mem_cons.1 h with rfl | h
        · rw [isIdChar, hword, Bool.true_or]
        · exact ih h
      · split at h
        · exact ih h
        · rcases List.mem_cons.1 h with rfl | h
          · decide
          · exact ih h

theorem IsIdText.append {s t : String} (hs : IsIdText s) (ht : IsIdText t) :
    IsIdText (s ++ t) := by
  rw [IsIdText, String.toList_append, List.all_append, hs, ht]
  rfl

theorem isIdText_ofName (name : Value) : IsIdText (ofName name) := by
  rw [IsIdText, ofName, normalForm, String.toList_ofList, List.all_eq_true]
  exact fun c hc => isIdChar_of_mem_collapse hc

theorem isIdText_ofNode (name : Value) : IsIdText (ofNode name) :=
  .append (by decide) (isIdText_ofName name)

theorem isIdText_ofGroup (name : Value) (boxed : Bool) : IsIdText (ofGroup name boxed) := by
  refine .append ?_ (isIdText_ofName name)
  cases boxed <;> decide

end HighlightGraph.Identifier
