import HighlightGraph.Proofs.Attributes.Blanked
import HighlightGraph.Proofs.Attributes.Values
import HighlightGraph.Proofs.Result
/-!
# Attributes that differ in texts only

Attributes with the same names in the same order, whose values differ at most in what a text says,
are written in the same way but for the contents of literals.
-/

namespace HighlightGraph

open Attributes (isDigit_of_mem_toDigits)
open Attributes.Quoted (AgreeText agreeText_of_plain agreeText_encode agreeText_intercalate)

/-! ## Values -/

/-- Two values, none of them markup, that are equal or two texts. -/
inductive Value.Alike : Value → Value → Prop where
  | str (s t : String) : Alike (.str s) (.str t)
  | same {v : Value} (hmarkup : ∀ text, v ≠ .markup text) : Alike v v

theorem quote_notMem_toDigits (n : Nat) : '"' ∉ Nat.toDigits 10 n := by
  intro h
  exact absurd (isDigit_of_mem_toDigits h) (by decide)

theorem quote_notMem_decimal (n : Int) : '"' ∉ (decimal n).toList := by
  rw [decimal, String.toList_ofList, List.mem_append, not_or]
  refine ⟨?_, quote_notMem_toDigits n.natAbs⟩
  split <;> simp

theorem quote_notMem_layoutDecimal {digits : List Char} (h : '"' ∉ digits) (point : Int) :
    '"' ∉ layoutDecimal digits point := by
  have hexponent := quote_notMem_toDigits (point - 1).natAbs
  have htake : ∀ n, '"' ∉ digits.take n := fun n hmem => h (List.mem_of_mem_take hmem)
  have hdrop : ∀ n, '"' ∉ digits.drop n := fun n hmem => h (List.mem_of_mem_drop hmem)
  have htail : '"' ∉ digits.tail := fun hmem => h (List.mem_of_mem_tail hmem)
  unfold layoutDecimal
  split
  · dsimp only
    split <;> split <;> simp_all
  · dsimp only
    split <;> split <;> simp_all

theorem quote_notMem_magnitude (m : Magnitude) : '"' ∉ m.text := by
  unfold Magnitude.text
  split
  · decide
  · apply quote_notMem_layoutDecimal
    intro h
    have hdigits := (List.dropWhile_sublist _).mem (List.mem_reverse.1 h)
    exact quote_notMem_toDigits _ (List.mem_reverse.1 hdigits)

theorem quote_notMem_double (x : Double) : '"' ∉ (x.text .document).toList := by
  cases x with
  | finite negative m =>
    rw [Double.text, String.toList_ofList, List.mem_append, not_or]
    refine ⟨?_, quote_notMem_magnitude m⟩
    split <;> simp
  | infinite negative => cases negative <;> decide
  | nan mark =>
    show '"' ∉ "NaN".toList
    decide

theorem Value.Alike.agree_format {v w : Value} (h : v.Alike w) : AgreeText v.format w.format := by
  cases h with
  | str s t => exact agreeText_encode s t
  | @same v hmarkup =>
    have hliteral := agreeText_encode v.text v.text
    cases v with
    | markup text => exact absurd rfl (hmarkup text)
    | bool b => cases b <;> exact agreeText_of_plain (by decide)
    | int n => exact agreeText_of_plain (quote_notMem_decimal n)
    | float x => exact agreeText_of_plain (quote_notMem_double x)
    | null => exact hliteral
    | str s => exact hliteral
    | list items => exact hliteral
    | map entries => exact hliteral

/-! ## Attributes -/

namespace Attributes

structure ItemAlike (item other : String × Value) : Prop where
  name_eq : item.1 = other.1
  name : isName item.1 = true
  value : item.2.Alike other.2

def Alike (attributes others : Attributes) : Prop :=
  List.Forall₂ ItemAlike attributes.entries others.entries

theorem alike_empty : Alike .empty .empty := .nil

theorem ItemAlike.isSet_eq {item other : String × Value} (h : ItemAlike item other) :
    isSet item = isSet other := by
  obtain ⟨name, v⟩ := item
  obtain ⟨otherName, w⟩ := other
  have hvalue : v.Alike w := h.value
  cases hvalue with
  | str s t => rfl
  | same hmarkup => cases v <;> rfl

theorem forall₂_store {name : String} {v w : Value} (hitem : ItemAlike (name, v) (name, w))
    {items others : List (String × Value)} (h : List.Forall₂ ItemAlike items others) :
    List.Forall₂ ItemAlike (Table.store name v items) (Table.store name w others) := by
  induction h with
  | nil => exact .cons hitem .nil
  | @cons item other items others hfirst hrest ih =>
      rw [Table.store, Table.store, ← hfirst.name_eq]
      by_cases hname : item.1 = name
      · rw [if_pos hname, if_pos hname]
        refine .cons ⟨rfl, hfirst.name, hitem.value⟩ hrest
      · rw [if_neg hname, if_neg hname]
        refine .cons ⟨rfl, hfirst.name, hfirst.value⟩ ih

theorem Alike.insert {attributes others : Attributes} (h : Alike attributes others) {name : String}
    (hname : isName name = true) {v w : Value} (hvalue : v.Alike w) :
    Alike (attributes.insert name v) (others.insert name w) := by
  have hitem : ItemAlike (name, v) (name, w) := ⟨rfl, hname, hvalue⟩
  exact forall₂_store hitem h

theorem Alike.overlay {attributes others : Attributes} (h : Alike attributes others)
    {items otherItems : List (String × Value)}
    (hitems : List.Forall₂ ItemAlike items otherItems) :
    Alike (attributes.overlay items) (others.overlay otherItems) := by
  induction hitems generalizing attributes others with
  | nil => exact h
  | @cons item other items otherItems hitem _ ih =>
      have hother : other = (item.1, other.2) := by rw [hitem.name_eq]
      rw [hother]
      exact ih (h.insert hitem.name hitem.value)

theorem alike_ofList {items otherItems : List (String × Value)}
    (h : List.Forall₂ ItemAlike items otherItems) :
    Alike (Table.ofList items) (Table.ofList otherItems) :=
  alike_empty.overlay h

/-! ### Texts -/

theorem quote_notMem_of_isName {name : String} (h : isName name = true) : '"' ∉ name.toList := by
  obtain ⟨c, rest, hcs, hc, hrest⟩ := isName_iff.1 h
  rw [hcs, List.mem_cons, not_or]
  refine ⟨Ne.symm (ne_of_isNameStart hc (by decide)), fun hmem => ?_⟩
  exact absurd (hrest _ hmem) (by decide)

theorem ItemAlike.agree {item other : String × Value} (h : ItemAlike item other) :
    AgreeText (formatItem item) (formatItem other) := by
  have hname := agreeText_of_plain (quote_notMem_of_isName h.name)
  have hequals : AgreeText "=" "=" := agreeText_of_plain (by decide)
  have hend : AgreeText ";" ";" := agreeText_of_plain (by decide)
  rw [formatItem, formatItem, ← h.name_eq]
  exact ((hname.append hequals).append h.value.agree_format).append hend

theorem agree_items {items others : List (String × Value)}
    (h : List.Forall₂ ItemAlike items others) :
    List.Forall₂ AgreeText (Attributes.items items) (Attributes.items others) := by
  have hset : List.Forall₂ ItemAlike (items.filter isSet) (others.filter isSet) := by
    refine List.rel_filter (fun item other hitem => ?_) h
    show isSet item = true ↔ isSet other = true
    rw [hitem.isSet_eq]
  rw [Attributes.items, Attributes.items, List.forall₂_map_left_iff, List.forall₂_map_right_iff]
  exact hset.imp fun _ _ hitem => hitem.agree

theorem Alike.agree_text {attributes others : Attributes} (h : Alike attributes others) :
    AgreeText attributes.text others.text :=
  agreeText_intercalate (by decide) (agree_items h)

theorem Alike.agree_listText {attributes others : Attributes} (h : Alike attributes others) :
    AgreeText attributes.listText others.listText := by
  have hopen : AgreeText " [ " " [ " := agreeText_of_plain (by decide)
  have hclose : AgreeText " ]" " ]" := agreeText_of_plain (by decide)
  rw [listText, listText]
  by_cases hempty : attributes.text = ""
  · rw [if_pos hempty, if_pos (h.agree_text.eq_empty_iff.1 hempty)]
    exact agreeText_of_plain (by decide)
  · rw [if_neg hempty, if_neg (mt h.agree_text.eq_empty_iff.2 hempty)]
    exact (hopen.append h.agree_text).append hclose

/-! ### Maps of attributes -/

structure EntryAlike (entry other : Value × Value) : Prop where
  key_eq : entry.1 = other.1
  key : ∀ name, entry.1 = .str name → isName name = true
  value : entry.2.Alike other.2

/-- Two maps that are alike entry by entry, or one and the same value that is no map. -/
inductive MapsAlike : Value → Value → Prop where
  | map {entries others : List (Value × Value)} (h : List.Forall₂ EntryAlike entries others) :
    MapsAlike (.map entries) (.map others)
  | same {v : Value} (hmap : ∀ entries, v ≠ .map entries) : MapsAlike v v

theorem fieldsOf?_alike {entries others : List (Value × Value)}
    (h : List.Forall₂ EntryAlike entries others) :
    (Value.fieldsOf? entries = none ∧ Value.fieldsOf? others = none) ∨
      ∃ fields otherFields, Value.fieldsOf? entries = some fields ∧
        Value.fieldsOf? others = some otherFields ∧ List.Forall₂ ItemAlike fields otherFields := by
  induction h with
  | nil => exact .inr ⟨[], [], rfl, rfl, .nil⟩
  | @cons entry other entries others hentry hrest ih =>
      obtain ⟨key, v⟩ := entry
      obtain ⟨otherKey, w⟩ := other
      have hkey : key = otherKey := hentry.key_eq
      subst hkey
      cases key with
      | str name =>
          rcases ih with ⟨hnone, hother⟩ | ⟨fields, otherFields, hfields, hothers, halike⟩
          · exact .inl ⟨by simp [Value.fieldsOf?, hnone], by simp [Value.fieldsOf?, hother]⟩
          · refine .inr ⟨(name, v) :: fields, (name, w) :: otherFields,
              by simp [Value.fieldsOf?, hfields], by simp [Value.fieldsOf?, hothers], ?_⟩
            exact .cons ⟨rfl, hentry.key name rfl, hentry.value⟩ halike
      | _ => exact .inl ⟨rfl, rfl⟩

theorem MapsAlike.ofMap {v w : Value} (h : MapsAlike v w) :
    SameOutcome Alike (ofMap v) (ofMap w) := by
  cases h with
  | map h =>
      rcases fieldsOf?_alike h with
        ⟨hnone, hother⟩ | ⟨fields, otherFields, hfields, hothers, halike⟩
      · simp only [Attributes.ofMap, hnone, hother]
        exact .error _
      · simp only [Attributes.ofMap, hfields, hothers]
        exact .ok (alike_ofList halike)
  | same hmap =>
      cases v with
      | map entries => exact absurd rfl (hmap entries)
      | _ => exact .error _

theorem MapsAlike.isGiven_eq {v w : Value} (h : MapsAlike v w) : v.isGiven = w.isGiven := by
  cases h with
  | map h => cases h <;> rfl
  | same hmap => rfl

theorem MapsAlike.ofValue {v w : Value} (h : MapsAlike v w) :
    SameOutcome Alike (ofValue v) (ofValue w) := by
  unfold Attributes.ofValue
  rw [h.isGiven_eq]
  split
  · exact h.ofMap
  · exact .ok alike_empty

theorem MapsAlike.ofOverlay {v w : Value} (h : MapsAlike v w) :
    SameOutcome Alike (ofOverlay v) (ofOverlay w) :=
  h.ofMap.mapError _

end Attributes

end HighlightGraph
