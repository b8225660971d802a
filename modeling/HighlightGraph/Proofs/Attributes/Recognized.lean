import HighlightGraph.Attributes.Basic
import HighlightGraph.Proofs.Result
import HighlightGraph.Proofs.Table
import HighlightGraph.Value.Key
/-!
# Markup told from text

What telling markup from text makes of a value, and of attributes that are given as a value.
-/

namespace HighlightGraph

/-! ## Values -/

namespace Value

theorem asMarkup_of_brackets {s : String} (h : "<<".toList <+: s.toList) :
    (str s).asMarkup = markup s :=
  if_pos (List.isPrefixOf_iff_prefix.2 h)

theorem asMarkup_of_no_brackets {s : String} (h : ¬ "<<".toList <+: s.toList) :
    (str s).asMarkup = str s :=
  if_neg (mt List.isPrefixOf_iff_prefix.1 h)

theorem asMarkup_asMarkup (v : Value) : v.asMarkup.asMarkup = v.asMarkup := by
  cases v with
  | str s =>
      by_cases h : "<<".toList <+: s.toList
      · rw [asMarkup_of_brackets h]
        rfl
      · rw [asMarkup_of_no_brackets h, asMarkup_of_no_brackets h]
  | _ => rfl

theorem isGiven_asMarkup (v : Value) : v.asMarkup.isGiven = v.isGiven := by
  cases v with
  | str s =>
      by_cases h : "<<".toList <+: s.toList
      · have hs : s ≠ "" := by
          rintro rfl
          exact absurd h (by decide)
        rw [asMarkup_of_brackets h, isGiven, isGiven, decide_eq_true hs]
      · rw [asMarkup_of_no_brackets h]
  | _ => rfl

theorem key?_asMarkup_eq_none_iff (v : Value) : v.asMarkup.key? = none ↔ v.key? = none := by
  cases v with
  | str s =>
      by_cases h : "<<".toList <+: s.toList
      · simp [asMarkup_of_brackets h, key?]
      · rw [asMarkup_of_no_brackets h]
  | _ => rfl

end Value

/-! ## Attributes -/

namespace Attributes

theorem ofMap_toValue (attributes : Attributes) : ofMap attributes.toValue = .ok attributes := by
  have hfields : Value.fieldsOf? (attributes.entries.map fun field => (.str field.1, field.2)) =
      some attributes.entries := Value.fieldsOf?_map _
  simp only [toValue, Value.ofFields, ofMap, hfields]
  rw [Table.ext (Table.entries_ofList attributes.nodup_keys)]

theorem eq_empty_of_not_isGiven {attributes : Attributes}
    (h : ¬ attributes.toValue.isGiven = true) : attributes = .empty := by
  apply Table.ext
  simpa [toValue, Value.ofFields, Value.isGiven, Table.empty] using h

theorem ofValue_toValue (attributes : Attributes) :
    ofValue attributes.toValue = .ok attributes := by
  unfold ofValue
  split
  · exact ofMap_toValue attributes
  · next hempty => rw [eq_empty_of_not_isGiven hempty]

theorem recognized_toValue (attributes : Attributes) :
    recognized attributes.toValue = .ok (attributes.mapValues Value.asMarkup) := by
  rw [recognized, ofValue_toValue]
  rfl

theorem toValue_injective {attributes other : Attributes}
    (h : attributes.toValue = other.toValue) : attributes = other := by
  have hsame := congrArg ofMap h
  rw [ofMap_toValue, ofMap_toValue] at hsame
  exact Except.ok.inj hsame

theorem mapValues_asMarkup_of_recognized {v : Value} {attributes : Attributes}
    (h : recognized v = .ok attributes) : attributes.mapValues Value.asMarkup = attributes := by
  obtain ⟨given, -, rfl⟩ := map_eq_ok h
  apply Table.ext
  show (given.entries.map _).map _ = given.entries.map _
  rw [List.map_map]
  apply List.map_congr_left
  intro entry _
  exact congrArg (entry.1, ·) entry.2.asMarkup_asMarkup

end Attributes

end HighlightGraph
