import HighlightGraph.Proofs.Attributes.Values
/-!
# Literals that end themselves

Taking backslashes back changes how many of them stand before a quote that is escaped, or before the
closing one. It never changes which of them is read as escaping which, so that a literal still ends
with its last character and nowhere else.
-/

namespace HighlightGraph.Attributes

namespace Quoted

/-- Nothing is put into a text whose backslashes are taken back. -/
theorem undouble_sublist (cs : List Char) : (undouble cs).Sublist cs := by
  induction cs with
  | nil => exact .slnil
  | cons c rest ih =>
      rw [undouble]
      split
      · exact ih.cons c
      · exact ih.cons_cons c

theorem le_toNat_of_mem_encode {cs : List Char} {c : Char} (h : c ∈ encode cs) :
    0x20 ≤ c.toNat :=
  Json.le_toNat_of_mem_quote ((undouble_sublist (Json.quote cs)).subset h)

theorem delimit_encode (cs rest : List Char) :
    delimit (encode cs ++ rest).tail = some ((encode cs).tail, rest) := by
  rw [encode_eq, List.cons_append, List.tail_cons, List.tail_cons, List.append_assoc]
  exact delimit_inside cs rest

end Quoted

/-- The literal of a text begins with a quote, has no control characters, and is just what is read
as one literal where any text stands after it. -/
theorem literal_delimits_itself (s rest : String) :
    (Value.str s).format.toList.head? = some '"' ∧
      (∀ c ∈ (Value.str s).format.toList, 0x20 ≤ c.toNat) ∧
      Quoted.delimit ((Value.str s).format ++ rest).toList.tail =
        some ((Value.str s).format.toList.tail, rest.toList) := by
  rw [String.toList_append, format_str]
  refine ⟨?_, fun _ => Quoted.le_toNat_of_mem_encode, Quoted.delimit_encode s.toList rest.toList⟩
  rw [Quoted.encode_eq, List.head?_cons]

/-- Backslashes before a letter, before a line end, before a quote and at the end, a control
character, and one more quote behind the literal. -/
theorem literal_of_backslashes :
    (Value.str "\\\\l\\\n\\\"\x07\\").format = "\"\\\\\\l\\\\n\\\\\\\"\\u0007\\\\\"" ∧
      '\x07' ∉ (Value.str "\\\\l\\\n\\\"\x07\\").format.toList ∧
      Quoted.delimit ((Value.str "\\\\l\\\n\\\"\x07\\").format ++ "\";").toList.tail =
        some ("\\\\\\l\\\\n\\\\\\\"\\u0007\\\\\"".toList, "\";".toList) := by
  have hformat : (Value.str "\\\\l\\\n\\\"\x07\\").format =
      "\"\\\\\\l\\\\n\\\\\\\"\\u0007\\\\\"" := by decide +kernel
  obtain ⟨-, hcontrol, hdelimit⟩ := literal_delimits_itself "\\\\l\\\n\\\"\x07\\" "\";"
  refine ⟨hformat, fun hmem => absurd (hcontrol _ hmem) (by decide), ?_⟩
  rw [hdelimit, hformat]
  decide +kernel

end HighlightGraph.Attributes
