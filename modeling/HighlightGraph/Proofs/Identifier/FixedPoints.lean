import HighlightGraph.Proofs.Attributes.Quoted
import HighlightGraph.Proofs.Identifier
/-!
# Normal forms are fixed points

A normal form is a text of small letters, digits and underscores in which no two underscores stand
together. Every text of this kind is the normal form of itself, so that these are all normal forms
and that taking the normal form a second time changes nothing.
-/

namespace HighlightGraph.Identifier

open Attributes.Quoted (pair_infix_cons_iff)

/-- Whether a text is made of the characters of identifiers, with no two underscores together. -/
def IsNormal (s : String) : Prop := IsIdText s ∧ ¬ ['_', '_'] <:+: s.toList

/-! ## Normal forms have single underscores -/

/-- Inside a run the underscore is already written, so that none may come first. -/
theorem single_marks_collapse (inRun : Bool) (cs : List Char) :
    ¬ ['_', '_'] <:+: collapse inRun cs ∧
      (inRun = true → (collapse inRun cs).head? ≠ some '_') := by
  induction cs generalizing inRun with
  | nil => simp [collapse]
  | cons c rest ih =>
      rw [collapse]
      cases hc : isWordChar c with
      | true =>
          have hne : c ≠ '_' := by
            rintro rfl
            exact Bool.noConfusion (isWordChar_mark.symm.trans hc)
          rw [if_pos rfl, pair_infix_cons_iff]
          refine ⟨?_, fun _ hhead => hne (Option.some.inj hhead)⟩
          rintro (⟨hmark, -⟩ | hrest)
          · exact hne hmark.symm
          · exact (ih false).1 hrest
      | false =>
          rw [if_neg Bool.false_ne_true]
          cases inRun with
          | true =>
              rw [if_pos rfl]
              exact ⟨(ih true).1, fun _ => (ih true).2 rfl⟩
          | false =>
              rw [if_neg Bool.false_ne_true, pair_infix_cons_iff]
              refine ⟨?_, fun h => absurd h Bool.false_ne_true⟩
              rintro (⟨-, hhead⟩ | hrest)
              · exact (ih true).2 rfl hhead
              · exact (ih true).1 hrest

theorem isNormal_ofName (name : Value) : IsNormal (ofName name) := by
  refine ⟨isIdText_ofName name, ?_⟩
  rw [ofName, normalForm, String.toList_ofList]
  exact (single_marks_collapse false _).1

/-! ## Texts that are their own normal form -/

/-- No character of an identifier is a capital. -/
theorem lowerChar_of_isIdChar {c : Char} (h : isIdChar c = true) : Text.lowerChar c = [c] := by
  have hcode := toNat_of_isIdChar h
  have hlower : c.toLower = c := by
    refine dif_neg ?_
    rintro ⟨hfirst, hlast⟩
    have hleast : 0x41 ≤ c.toNat := UInt32.le_iff_toNat_le.1 hfirst
    have hmost : c.toNat ≤ 0x5a := UInt32.le_iff_toNat_le.1 hlast
    omega
  rw [Text.lowerChar_of_ascii (by omega), hlower]

theorem IsIdText.lower_toList {s : String} (h : IsIdText s) : Text.lower s.toList = s.toList :=
  calc
    Text.lower s.toList = s.toList.flatMap fun c => [c] :=
      List.flatMap_congr fun _ hc => lowerChar_of_isIdChar (h.isIdChar hc)
    _ = s.toList := List.flatMap_singleton' s.toList

theorem collapse_eq_self {inRun : Bool} {cs : List Char} (hchars : ∀ c ∈ cs, isIdChar c = true)
    (hsingle : ¬ ['_', '_'] <:+: cs) (hhead : inRun = true → cs.head? ≠ some '_') :
    collapse inRun cs = cs := by
  induction cs generalizing inRun with
  | nil => rfl
  | cons c rest ih =>
      rw [List.forall_mem_cons] at hchars
      rw [pair_infix_cons_iff, not_or] at hsingle
      rw [collapse]
      cases hc : isWordChar c with
      | true =>
          rw [if_pos rfl, ih hchars.2 hsingle.2 fun h => absurd h Bool.false_ne_true]
      | false =>
          have hmark : c = '_' := by simpa [isIdChar, hc] using hchars.1
          have hrun : ¬ inRun = true := fun h => hhead h (congrArg some hmark)
          rw [if_neg Bool.false_ne_true, if_neg hrun,
            ih hchars.2 hsingle.2 fun _ h => hsingle.1 ⟨hmark.symm, h⟩, hmark]

theorem IsNormal.ofName_eq {s : String} (h : IsNormal s) : ofName (.str s) = s := by
  have hcollapse : collapse false s.toList = s.toList :=
    collapse_eq_self (fun _ hc => h.1.isIdChar hc) h.2 fun hrun => absurd hrun Bool.false_ne_true
  show normalForm s = s
  rw [normalForm, h.1.lower_toList, hcollapse, String.ofList_toList]

/-- Every name has a normal form of this kind, and the texts of this kind are those that are their
own normal form. So the normal form of a normal form is itself, and they are all the normal forms
that names have. -/
theorem normal_forms_are_fixed_points :
    (∀ name, IsNormal (ofName name)) ∧ (∀ s, ofName (.str s) = s ↔ IsNormal s) ∧
      (∀ name, ofName (.str (ofName name)) = ofName name) ∧
      ∀ s, (∃ name, ofName name = s) ↔ IsNormal s := by
  have hfixed : ∀ s, ofName (.str s) = s ↔ IsNormal s :=
    fun s => ⟨fun h => h ▸ isNormal_ofName (.str s), IsNormal.ofName_eq⟩
  refine ⟨isNormal_ofName, hfixed, fun name => (isNormal_ofName name).ofName_eq, fun s => ?_⟩
  constructor
  · rintro ⟨name, rfl⟩
    exact isNormal_ofName name
  · intro h
    exact ⟨.str s, h.ofName_eq⟩

/-- Letters outside ASCII can become small letters, alone or with a character beside them. -/
example : ofName (.str "__\u212a\u0130x -- \u00c9") = "_ki_x_" := by decide +kernel

end HighlightGraph.Identifier
