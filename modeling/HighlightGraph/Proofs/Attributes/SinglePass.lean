import HighlightGraph.Proofs.Attributes.Quoted
import Mathlib
/-!
# Literals decoded in one pass

A literal is decoded in two steps: backslashes are doubled first, then the escapes of JSON are read.
Together they make one pass from left to right, which knows the escapes of JSON and one more: a
backslash before `l` stands for itself.
-/

namespace HighlightGraph.Attributes.Quoted

/-! ## The pass -/

def unpaired : (high : Option Nat) → List Char
  | none => []
  | some _ => ['\ufffd']

def completed (high : Option Nat) (code : Nat) : List Char :=
  match high with
  | some first =>
    if Json.isLowSurrogate code then
      [Char.ofNat (0x10000 + (first - 0xd800) * 0x400 + (code - 0xdc00))]
    else ['\ufffd', Char.ofNat code]
  | none => if Json.isLowSurrogate code then ['\ufffd'] else [Char.ofNat code]

/-- The text of a literal, read in one pass over what stands between the quotes. `high` is the first
half of a surrogate pair that waits for its second half. -/
def decodeOnce (high : Option Nat) : List Char → Option (List Char)
  | [] => some (unpaired high)
  | '\\' :: 'u' :: a :: b :: c :: d :: rest =>
    match Json.hexUnit? a b c d with
    | some code =>
      if Json.isHighSurrogate code then (decodeOnce (some code) rest).map (unpaired high ++ ·)
      else (decodeOnce none rest).map (completed high code ++ ·)
    | none => none
  | '\\' :: 'l' :: rest => (decodeOnce none rest).map (unpaired high ++ '\\' :: 'l' :: ·)
  | '\\' :: letter :: rest =>
    match Json.unescape? letter with
    | some c => (decodeOnce none rest).map (unpaired high ++ c :: ·)
    | none => none
  | c :: rest =>
    if c = '\\' ∨ c = '"' ∨ c.toNat < 0x20 then none
    else (decodeOnce none rest).map (unpaired high ++ c :: ·)

/-! ## What stands between the quotes -/

/-- Whether every backslash of a text has a character that it escapes, and every quote has a
backslash. -/
inductive Escaped : List Char → Prop where
  | nil : Escaped []
  | plain {c : Char} {rest : List Char} (hquote : c ≠ '"') (hback : c ≠ '\\')
      (h : Escaped rest) : Escaped (c :: rest)
  | pair (d : Char) {rest : List Char} (h : Escaped rest) : Escaped ('\\' :: d :: rest)

theorem escaped_of_delimit {cs inside after : List Char}
    (h : delimit cs = some (inside, after)) :
    ∃ content, inside = content ++ ['"'] ∧ Escaped content := by
  fun_induction delimit cs generalizing inside after with
  | case1 => cases h
  | case2 rest =>
    cases h
    exact ⟨[], rfl, .nil⟩
  | case3 => cases h
  | case4 d rest _ ih =>
    obtain ⟨⟨inner, left⟩, hread, ⟨⟩⟩ := Option.map_eq_some_iff.1 h
    obtain ⟨content, rfl, hcontent⟩ := ih hread
    exact ⟨'\\' :: d :: content, rfl, .pair d hcontent⟩
  | case5 c rest hquote hback ih =>
    obtain ⟨⟨inner, left⟩, hread, ⟨⟩⟩ := Option.map_eq_some_iff.1 h
    obtain ⟨content, rfl, hcontent⟩ := ih hread
    exact ⟨c :: content, rfl, .plain hquote hback hcontent⟩

theorem Escaped.tail {c : Char} {rest : List Char} (h : Escaped (c :: rest)) (hback : c ≠ '\\') :
    Escaped rest := by
  cases h with
  | plain _ _ h => exact h
  | pair d h => exact absurd rfl hback

theorem Escaped.rest {c : Char} {rest : List Char} (h : Escaped ('\\' :: c :: rest)) :
    Escaped rest := by
  cases h with
  | plain _ hback h => exact absurd rfl hback
  | pair d h => exact h

/-! ## Code units -/

def textOf (high : Option Nat) (read : Except Json.Fault (List Nat × List Char)) :
    Option (List Char) :=
  read.toOption.map fun r => Json.joinUnits high r.1

section TextOf

variable (high : Option Nat) (read : Except Json.Fault (List Nat × List Char))

theorem textOf_unit (code : Nat) :
    textOf high (read.map fun r => (code :: r.1, r.2)) =
      if Json.isHighSurrogate code then (textOf (some code) read).map (unpaired high ++ ·)
      else (textOf none read).map (completed high code ++ ·) := by
  cases read with
  | error e => split <;> rfl
  | ok r =>
    have hdisjoint : Json.isHighSurrogate code = true → Json.isLowSurrogate code = false := by
      simp only [Json.isHighSurrogate, Json.isLowSurrogate, Bool.and_eq_true, decide_eq_true_eq,
        Bool.and_eq_false_iff, decide_eq_false_iff_not]
      omega
    show some (Json.joinUnits high (code :: r.1)) = _
    by_cases hhigh : Json.isHighSurrogate code = true
    · have hlow := hdisjoint hhigh
      cases high <;> simp [Json.joinUnits, hhigh, hlow, textOf, unpaired, Except.toOption]
    · by_cases hlow : Json.isLowSurrogate code = true <;> cases high <;>
        simp [Json.joinUnits, hhigh, hlow, textOf, completed, Except.toOption]

theorem textOf_char (c : Char) :
    textOf high (read.map fun r => (c.toNat :: r.1, r.2)) =
      (textOf none read).map (unpaired high ++ c :: ·) := by
  obtain ⟨hhigh, hlow⟩ := Json.not_surrogate c
  rw [textOf_unit, hhigh, if_neg (by simp)]
  congr 1
  cases high <;> simp [completed, unpaired, hlow, Char.ofNat_toNat]

end TextOf

/-! ## Both steps are the pass -/

theorem of_redouble_eq_cons {content text : List Char} {c : Char} (hback : c ≠ '\\')
    (hquote : c ≠ '"') (h : redouble false (content ++ ['"']) = c :: text) :
    ∃ rest, content = c :: rest ∧ redouble false (rest ++ ['"']) = text := by
  cases content with
  | nil =>
    cases h
    exact absurd rfl hquote
  | cons d rest =>
    by_cases hd : d = '\\'
    · subst hd
      cases h
      exact absurd rfl hback
    · rw [List.cons_append, redouble_cons hd] at h
      cases h
      exact ⟨rest, rfl, rfl⟩

theorem redouble_unit {a b c d : Char} {code : Nat} (h : Json.hexUnit? a b c d = some code)
    (rest : List Char) :
    redouble false ('\\' :: 'u' :: a :: b :: c :: d :: rest) =
      '\\' :: 'u' :: a :: b :: c :: d :: redouble false rest := by
  have hdigits := Json.plain_of_hexUnit? h
  rw [redouble_pair (by decide)]
  show _ = '\\' :: 'u' :: ([a, b, c, d] ++ redouble false rest)
  rw [← redouble_append fun x hx => (hdigits x hx).2]
  rfl

/-- An escape of a code unit that is read stands like this before backslashes are doubled. -/
theorem exists_digits_of_redouble {opening : List Char} (content : List Char)
    {r : List Nat × List Char}
    (h : Json.readUnits opening (redouble false ('\\' :: 'u' :: (content ++ ['"']))) = .ok r) :
    ∃ a b c d rest code, content = a :: b :: c :: d :: rest ∧
      Json.hexUnit? a b c d = some code := by
  rw [redouble_pair (by decide)] at h
  obtain ⟨a, b, c, d, after, code, hafter, hcode⟩ := Json.exists_digits_of_readUnits h
  have hdigits := Json.plain_of_hexUnit? hcode
  simp only [List.forall_mem_cons] at hdigits
  obtain ⟨ha, hb, hc, hd, -⟩ := hdigits
  obtain ⟨content, rfl, hafterA⟩ := of_redouble_eq_cons ha.2 ha.1 hafter
  obtain ⟨content, rfl, hafterB⟩ := of_redouble_eq_cons hb.2 hb.1 hafterA
  obtain ⟨content, rfl, hafterC⟩ := of_redouble_eq_cons hc.2 hc.1 hafterB
  obtain ⟨content, rfl, -⟩ := of_redouble_eq_cons hd.2 hd.1 hafterC
  exact ⟨a, b, c, d, content, code, rfl, hcode⟩

theorem redouble_cons_ne_nil (escaping : Bool) (c : Char) (rest : List Char) :
    redouble escaping (c :: rest) ≠ [] := by
  rw [redouble]
  split
  · exact List.cons_ne_nil _ _
  · split <;> exact List.cons_ne_nil _ _

theorem textOf_eq_none {high : Option Nat} {read : Except Json.Fault (List Nat × List Char)}
    (h : ∀ r, read ≠ .ok r) : textOf high read = none := by
  cases read with
  | error e => rfl
  | ok r => exact absurd rfl (h r)

theorem textOf_readUnits_unit (opening : List Char) {a b c d : Char} {code : Nat}
    (h : Json.hexUnit? a b c d = some code) (high : Option Nat) (rest : List Char) :
    textOf high (Json.readUnits opening
        (redouble false ('\\' :: 'u' :: a :: b :: c :: d :: rest ++ ['"']))) =
      if Json.isHighSurrogate code then
        (textOf (some code) (Json.readUnits opening (redouble false (rest ++ ['"'])))).map
          (unpaired high ++ ·)
      else
        (textOf none (Json.readUnits opening (redouble false (rest ++ ['"'])))).map
          (completed high code ++ ·) := by
  have hne : redouble false (rest ++ ['"']) ≠ [] := by
    cases rest <;> exact redouble_cons_ne_nil _ _ _
  simp only [List.cons_append]
  rw [redouble_unit h, Json.readUnits_unit opening h hne, textOf_unit]

theorem Escaped.rest_of_unit {a b c d : Char} {code : Nat} {rest : List Char}
    (h : Escaped ('\\' :: 'u' :: a :: b :: c :: d :: rest))
    (hcode : Json.hexUnit? a b c d = some code) : Escaped rest := by
  have hdigits := Json.plain_of_hexUnit? hcode
  simp only [List.forall_mem_cons] at hdigits
  obtain ⟨ha, hb, hc, hd, -⟩ := hdigits
  exact (((h.rest.tail ha.2).tail hb.2).tail hc.2).tail hd.2

theorem textOf_readUnits (opening : List Char) {content : List Char} (h : Escaped content)
    (high : Option Nat) :
    textOf high (Json.readUnits opening (redouble false (content ++ ['"']))) =
      decodeOnce high content := by
  fun_induction decodeOnce high content with
  | case1 high => cases high <;> rfl
  | case2 high a b c d rest code hcode hhigh ih =>
    rw [textOf_readUnits_unit opening hcode, if_pos hhigh, ih (h.rest_of_unit hcode)]
  | case3 high a b c d rest code hcode hhigh ih =>
    rw [textOf_readUnits_unit opening hcode, if_neg hhigh, ih (h.rest_of_unit hcode)]
  | case4 high a b c d rest hcode =>
    apply textOf_eq_none
    intro r hr
    obtain ⟨a', b', c', d', rest', code, heq, hcode'⟩ :=
      exists_digits_of_redouble (a :: b :: c :: d :: rest) hr
    cases heq
    cases hcode.symm.trans hcode'
  | case5 high rest ih =>
    show textOf high (Json.readUnits opening (redouble false ('\\' :: 'l' :: (rest ++ ['"'])))) = _
    have hback : Json.unescape? '\\' = some '\\' := by decide
    rw [redouble_line, Json.readUnits_letter opening (by decide) hback,
      Json.readUnits_plain opening (by decide) (by decide) (by decide), textOf_char, textOf_char,
      ih h.rest, Option.map_map]
    rfl
  | case6 high letter rest hunit hline c hc ih =>
    have hu : letter ≠ 'u' := by
      rintro rfl
      cases hc
    show textOf high (Json.readUnits opening
      (redouble false ('\\' :: letter :: (rest ++ ['"'])))) = _
    rw [redouble_pair hline, Json.readUnits_letter opening hu hc, textOf_char, ih h.rest]
  | case7 high letter rest hunit hline hletter =>
    apply textOf_eq_none
    intro r hr
    by_cases hu : letter = 'u'
    · subst hu
      obtain ⟨a, b, c, d, rest', code, rfl, -⟩ := exists_digits_of_redouble rest hr
      exact hunit a b c d rest' rfl rfl
    · rw [List.cons_append, List.cons_append, redouble_pair hline, Json.readUnits.eq_def] at hr
      simp [hu, hletter] at hr
  | case8 high c rest hunit hline hpair hc =>
    apply textOf_eq_none
    intro r hr
    cases h with
    | pair d h => exact hpair d _ rfl rfl
    | plain hquote hback h =>
      have hcontrol : c.toNat < 0x20 := (hc.resolve_left hback).resolve_left hquote
      rw [List.cons_append, redouble_cons hback, Json.readUnits.eq_def] at hr
      simp [hback, hquote, hcontrol] at hr
  | case9 high c rest hunit hline hpair hc ih =>
    simp only [not_or] at hc
    rw [List.cons_append, redouble_cons hc.1, Json.readUnits_plain opening hc.2.1 hc.1 hc.2.2,
      textOf_char, ih (h.tail hc.1)]

/-- Decoding a literal that the reader has delimited is one pass over what stands between its
quotes: it succeeds exactly when the pass does, and with the same text. -/
theorem decode_eq_decodeOnce {cs inside after : List Char}
    (h : delimit cs = some (inside, after)) :
    (decode ('"' :: inside)).toOption = decodeOnce none inside.dropLast := by
  obtain ⟨content, rfl, hcontent⟩ := escaped_of_delimit h
  rw [List.dropLast_concat, decode, redouble_cons (by decide), ← textOf_readUnits _ hcontent,
    List.drop_one, List.tail_cons, Json.readString, textOf]
  cases Json.readUnits _ (redouble false (content ++ ['"'])) <;> rfl

/-- An escaped backslash before `l` reads as the escape of `l` does, and two code units make one
character. -/
theorem decode_lines_and_pair :
    (decode ('"' :: "\\\\l\\l\\ud83d\\ude00\\\"\"".toList)).toOption =
      some "\\l\\l😀\"".toList := by
  have hdelimit : delimit "\\\\l\\l\\ud83d\\ude00\\\"\";".toList =
      some ("\\\\l\\l\\ud83d\\ude00\\\"\"".toList, [';']) := by
    cbv
  rw [decode_eq_decodeOnce hdelimit]
  cbv

end HighlightGraph.Attributes.Quoted
