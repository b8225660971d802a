import HighlightGraph.Proofs.Attributes.Continuation
import Mathlib
/-!
# Attribute texts one after the other

Two attribute texts with separators between them are read as one text, of which the second part is
laid over the first. Blanks and brackets around a text make no difference.
-/

namespace HighlightGraph.Attributes

/-! ## Blanks around a text -/

theorem isSeparator_of_isBlank {c : Char} (h : Text.isBlank c = true) : isSeparator c = true := by
  rw [isSeparator, h]
  rfl

theorem skipSeparators_append_of_all {front : List Char}
    (h : ∀ c ∈ front, isSeparator c = true) (rest : List Char) :
    skipSeparators (front ++ rest) = skipSeparators rest :=
  List.dropWhile_append_of_pos h

theorem separated_append_of_all {front : List Char} (h : ∀ c ∈ front, isSeparator c = true)
    {rest : List Char} (hrest : Separated rest) : Separated (front ++ rest) := by
  cases front with
  | nil => exact hrest
  | cons c front =>
    rintro d ⟨⟩
    exact h c List.mem_cons_self

theorem trimEnd_isPrefix (cs : List Char) : Text.trimEnd cs <+: cs :=
  List.rdropWhile_prefix Text.isBlank cs

theorem exists_eq_trimEnd_append (cs : List Char) :
    ∃ blanks, cs = Text.trimEnd cs ++ blanks ∧ ∀ c ∈ blanks, isSeparator c = true :=
  ⟨cs.rtakeWhile Text.isBlank, List.rdropWhile_append_rtakeWhile.symm,
    fun _ hc => isSeparator_of_isBlank (List.mem_rtakeWhile_imp hc)⟩

theorem trimEnd_append (front rest : List Char) :
    Text.trimEnd (front ++ rest) =
      if Text.trimEnd rest = [] then Text.trimEnd front else front ++ Text.trimEnd rest := by
  simp only [Text.trimEnd, List.reverse_append, List.dropWhile_append, List.reverse_eq_nil_iff,
    List.isEmpty_iff]
  split
  · rfl
  · rw [List.reverse_append, List.reverse_reverse]

theorem head?_trim (cs : List Char) :
    (Text.trim cs).head? = cs.find? fun c => !Text.isBlank c := by
  rw [List.find?_not_eq_head?_dropWhile, Text.trim]
  cases hdrop : cs.dropWhile Text.isBlank with
  | nil => rfl
  | cons c rest =>
    have hc : Text.isBlank c = false := by
      have hhead := List.head?_dropWhile_not Text.isBlank cs
      rw [hdrop] at hhead
      simpa using hhead
    have hsingle : Text.trimEnd [c] = [c] := trimEnd_concat hc []
    rw [← List.singleton_append, trimEnd_append, hsingle]
    split <;> rfl

/-- Blanks before a text are separators before it. -/
theorem skipSeparators_trim (cs : List Char) :
    skipSeparators (Text.trim cs) = skipSeparators (Text.trimEnd cs) := by
  have hblank : ∀ c ∈ cs.takeWhile Text.isBlank, Text.isBlank c = true :=
    fun _ hc => List.mem_takeWhile_imp hc
  conv_rhs => rw [← List.takeWhile_append_dropWhile (p := Text.isBlank) (l := cs)]
  rw [trimEnd_append, Text.trim]
  split
  · next hempty =>
    have hfront : Text.trimEnd (cs.takeWhile Text.isBlank) = [] :=
      List.rdropWhile_eq_nil_iff.2 hblank
    rw [hempty, hfront]
  · exact (skipSeparators_append_of_all (fun c hc => isSeparator_of_isBlank (hblank c hc)) _).symm

/-- Blanks after a text are separators after it. -/
theorem readItems_of_trimEnd {cs : List Char} {items : List (String × Value)}
    (h : readItems (skipSeparators (Text.trimEnd cs)) = .ok items) :
    readItems (skipSeparators cs) = .ok items := by
  obtain ⟨blanks, hcs, hblanks⟩ := exists_eq_trimEnd_append cs
  have hseparated : Separated (blanks ++ []) := separated_append_of_all hblanks nofun
  have hnone : skipSeparators (blanks ++ []) = [] := skipSeparators_append_of_all hblanks []
  rw [List.append_nil] at hseparated hnone
  rw [hcs, readItems_append hseparated h, hnone, readItems]
  exact congrArg Except.ok (List.append_nil items)

theorem exists_trimEnd_append_eq (front : List Char) {rest : List Char} (hrest : Separated rest) :
    ∃ tail, Text.trimEnd (front ++ rest) = Text.trimEnd front ++ tail ∧ Separated tail ∧
      skipSeparators tail = skipSeparators (Text.trimEnd rest) := by
  rw [trimEnd_append]
  split
  · next hempty => exact ⟨[], (List.append_nil _).symm, nofun, by rw [hempty]⟩
  · next hne =>
    obtain ⟨blanks, hfront, hblanks⟩ := exists_eq_trimEnd_append front
    have hkept : Separated (Text.trimEnd rest) := by
      obtain ⟨after, hafter⟩ := trimEnd_isPrefix rest
      intro c hc
      apply hrest c
      rw [← hafter, List.head?_append, Option.mem_def.1 hc]
      rfl
    refine ⟨blanks ++ Text.trimEnd rest, ?_, separated_append_of_all hblanks hkept,
      skipSeparators_append_of_all hblanks _⟩
    conv_lhs => rw [hfront]
    exact List.append_assoc _ _ _

theorem skipSeparators_trimEnd_append {front : List Char}
    (h : ∀ c ∈ front, isSeparator c = true) (rest : List Char) :
    skipSeparators (Text.trimEnd (front ++ rest)) = skipSeparators (Text.trimEnd rest) := by
  rw [trimEnd_append]
  split
  · next hempty =>
    have hall : ∀ c ∈ Text.trimEnd front, isSeparator c = true :=
      fun c hc => h c ((trimEnd_isPrefix front).subset hc)
    have hnone := skipSeparators_append_of_all hall []
    rwa [List.append_nil, ← hempty] at hnone
  · exact skipSeparators_append_of_all h _

/-! ## Texts -/

/-- Whether a text does not begin with a bracket, apart from blanks. -/
def Unbracketed (text : String) : Prop := (Text.trim text.toList).head? ≠ some '['

instance (text : String) : Decidable (Unbracketed text) :=
  inferInstanceAs (Decidable ((Text.trim text.toList).head? ≠ some '['))

theorem unbracketed_iff {text : String} :
    Unbracketed text ↔ text.toList.find? (fun c => !Text.isBlank c) ≠ some '[' := by
  rw [Unbracketed, head?_trim]

theorem unbracket_of_head? {cs : List Char} (h : cs.head? ≠ some '[') : unbracket cs = cs := by
  unfold unbracket
  split
  · exact absurd rfl h
  · rfl

theorem parse_eq_ok_iff {text : String} (h : Unbracketed text) {attributes : Attributes} :
    parse text = .ok attributes ↔
      ∃ items, readItems (skipSeparators (Text.trimEnd text.toList)) = .ok items ∧
        Table.ofList items = attributes := by
  rw [parse, unbracket_of_head? h, skipSeparators_trim]
  cases readItems (skipSeparators (Text.trimEnd text.toList)) <;> simp

/-- A text is read as before when brackets stand around it. -/
theorem parse_bracketed {text : String} (h : Unbracketed text) {attributes : Attributes}
    (hparse : parse text = .ok attributes) : parse ("[" ++ text ++ "]") = .ok attributes := by
  obtain ⟨items, hitems, rfl⟩ := (parse_eq_ok_iff h).1 hparse
  have htext : ("[" ++ text ++ "]").toList = '[' :: (text.toList ++ [']']) := by simp
  rw [parse, htext, unbracket_trim_brackets, readItems_of_trimEnd hitems]

theorem Unbracketed.append {first second separators : String} (hfirst : Unbracketed first)
    (hsecond : Unbracketed second) (hseparators : ∀ c ∈ separators.toList, isSeparator c = true) :
    Unbracketed (first ++ separators ++ second) := by
  rw [unbracketed_iff] at hfirst hsecond ⊢
  rw [String.toList_append, String.toList_append, List.find?_append, List.find?_append, Ne,
    Option.or_eq_some_iff, Option.or_eq_some_iff]
  rintro ((h | ⟨-, h⟩) | ⟨-, h⟩)
  · exact hfirst h
  · exact absurd (hseparators _ (List.mem_of_find?_eq_some h)) (by decide)
  · exact hsecond h

/-- Two accepted texts with separators between them are accepted as one. What the second says is
laid over what the first says; and brackets around any of the texts make no difference. -/
theorem parse_append {first second separators : String} {attributes later : Attributes}
    (hfirst : Unbracketed first) (hsecond : Unbracketed second)
    (hparse : parse first = .ok attributes) (hlater : parse second = .ok later)
    (hne : separators ≠ "") (hseparators : ∀ c ∈ separators.toList, isSeparator c = true) :
    ∃ joined, parse (first ++ separators ++ second) = .ok joined ∧
      joined.keys = attributes.keys ++ later.keys.filter (· ∉ attributes.keys) ∧
      (∀ name, joined.get? name = (later.get? name).or (attributes.get? name)) ∧
      parse ("[" ++ first ++ "]") = .ok attributes ∧
      parse ("[" ++ second ++ "]") = .ok later ∧
      parse ("[" ++ (first ++ separators ++ second) ++ "]") = .ok joined := by
  have hjoined : Unbracketed (first ++ separators ++ second) :=
    hfirst.append hsecond hseparators
  obtain ⟨items, hitems, rfl⟩ := (parse_eq_ok_iff hfirst).1 hparse
  obtain ⟨laterItems, hlaterItems, rfl⟩ := (parse_eq_ok_iff hsecond).1 hlater
  have hread : parse (first ++ separators ++ second) =
      .ok ((Table.ofList items).overlay laterItems) := by
    obtain ⟨c, rest, hcs⟩ := List.exists_cons_of_ne_nil (mt String.toList_eq_nil_iff.1 hne)
    have hseparated : Separated (separators.toList ++ second.toList) := by
      rw [hcs]
      rintro d ⟨⟩
      exact hseparators c (by rw [hcs]; exact List.mem_cons_self)
    obtain ⟨tail, htrim, htail, hskip⟩ := exists_trimEnd_append_eq first.toList hseparated
    refine (parse_eq_ok_iff hjoined).2 ⟨items ++ laterItems, ?_, Table.overlay_append _ _ _⟩
    rw [String.toList_append, String.toList_append, List.append_assoc, htrim,
      readItems_append htail hitems, hskip, skipSeparators_trimEnd_append hseparators,
      hlaterItems]
    rfl
  exact ⟨_, hread, Table.keys_overlay _ _, Table.get?_overlay _ _, parse_bracketed hfirst hparse,
    parse_bracketed hsecond hlater, parse_bracketed hjoined hread⟩

/-- A name that both texts have keeps its first place and takes its last value. -/
theorem parse_red_then_blue :
    ∃ joined,
      parse (" color = red, label=<b>" ++ ";\n" ++ "width=-12 color = \"blue\" ") = .ok joined ∧
      joined.keys = ["color", "label", "width"] ∧ joined.get? "color" = some (.str "blue") ∧
      joined.get? "label" = some (.markup "<b>") := by
  have hfirst : parse " color = red, label=<b>" =
      .ok (Table.ofList [("color", .str "red"), ("label", .markup "<b>")]) := by
    cbv
  have hsecond : parse "width=-12 color = \"blue\" " =
      .ok (Table.ofList [("width", .int (-12)), ("color", .str "blue")]) := by
    cbv
  have hseparators : ∀ c ∈ ";\n".toList, isSeparator c = true :=
    List.forall_mem_cons.2 ⟨rfl, List.forall_mem_singleton.2 rfl⟩
  obtain ⟨joined, hparse, hkeys, hget, -⟩ :=
    parse_append (by decide) (by decide) hfirst hsecond (by decide) hseparators
  exact ⟨joined, hparse, hkeys, hget "color", hget "label"⟩

end HighlightGraph.Attributes
