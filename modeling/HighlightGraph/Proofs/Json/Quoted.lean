import HighlightGraph.Json.Quoted
/-!
# Quoted strings read back

What the escape of one character looks like, and that reading a quoted text gives the text again,
whatever stands after it.
-/

namespace HighlightGraph.Json

/-! ## The escape of one character -/

def shortEscapes : List (Char × Char) :=
  [('"', '"'), ('\\', '\\'), ('\n', 'n'), ('\r', 'r'), ('\t', 't'), ('\x08', 'b'), ('\x0c', 'f')]

/-- A character is escaped by a letter, by its code, or not at all. -/
theorem escape_cases (c : Char) :
    (∃ letter, (c, letter) ∈ shortEscapes ∧ escape c = ['\\', letter]) ∨
      ((∀ p ∈ shortEscapes, c ≠ p.1) ∧ c.toNat < 0x20 ∧
        escape c = '\\' :: 'u' :: hexDigits 4 c.toNat) ∨
      (∀ p ∈ shortEscapes, c ≠ p.1) ∧ 0x20 ≤ c.toNat ∧ escape c = [c] := by
  by_cases hshort : ∃ letter, (c, letter) ∈ shortEscapes
  · obtain ⟨letter, hletter⟩ := hshort
    refine .inl ⟨letter, hletter, ?_⟩
    have hall : shortEscapes.all (fun p => escape p.1 = ['\\', p.2]) = true := by decide
    exact of_decide_eq_true (List.all_eq_true.1 hall _ hletter)
  · have hfresh : ∀ p ∈ shortEscapes, c ≠ p.1 := by
      rintro ⟨d, letter⟩ hp rfl
      exact hshort ⟨letter, hp⟩
    have hne := hfresh
    simp only [shortEscapes, List.forall_mem_cons] at hne
    by_cases hcontrol : c.toNat < 0x20
    · exact .inr (.inl ⟨hfresh, hcontrol, by simp [escape, hne, hcontrol]⟩)
    · exact .inr (.inr ⟨hfresh, Nat.not_lt.1 hcontrol, by simp [escape, hne, hcontrol]⟩)

/-- What holds of every pair of `shortEscapes`. -/
theorem shortEscapes_spec {c letter : Char} (h : (c, letter) ∈ shortEscapes) :
    unescape? letter = some c ∧ letter ≠ 'u' ∧ letter ≠ 'l' ∧ 0x20 ≤ letter.toNat ∧
      (letter = '\\' ↔ c = '\\') := by
  have hall : shortEscapes.all (fun p => unescape? p.2 = some p.1 ∧ p.2 ≠ 'u' ∧ p.2 ≠ 'l' ∧
      0x20 ≤ p.2.toNat ∧ (p.2 = '\\' ↔ p.1 = '\\')) = true := by decide
  exact of_decide_eq_true (List.all_eq_true.1 hall _ h)

theorem hexDigits_control : ∀ n < 0x20, ∃ a b,
    hexDigits 4 n = ['0', '0', a, b] ∧ hexUnit? '0' '0' a b = some n ∧
      (a ≠ '"' ∧ a ≠ '\\' ∧ 0x20 ≤ a.toNat) ∧ b ≠ '"' ∧ b ≠ '\\' ∧ 0x20 ≤ b.toNat := by
  have h : ∀ n < 0x20, hexDigits 4 n = ['0', '0', Nat.digitChar (n / 16), Nat.digitChar (n % 16)] ∧
      hexUnit? '0' '0' (Nat.digitChar (n / 16)) (Nat.digitChar (n % 16)) = some n := by decide
  have hplain : ∀ d < 16, Nat.digitChar d ≠ '"' ∧ Nat.digitChar d ≠ '\\' ∧
      0x20 ≤ (Nat.digitChar d).toNat := by decide
  intro n hn
  exact ⟨_, _, (h n hn).1, (h n hn).2, hplain _ (by omega), hplain _ (Nat.mod_lt n (by decide))⟩

/-- A character stands for itself, or for a backslash, a letter and maybe more. -/
theorem escape_shape (c : Char) :
    (escape c = [c] ∧ c ≠ '"' ∧ c ≠ '\\' ∧ 0x20 ≤ c.toNat) ∨
      ∃ letter digits, escape c = '\\' :: letter :: digits ∧
        (letter = '\\' ↔ c = '\\') ∧ letter ≠ 'l' ∧ 0x20 ≤ letter.toNat ∧
          ∀ d ∈ digits, d ≠ '"' ∧ d ≠ '\\' ∧ 0x20 ≤ d.toNat := by
  rcases escape_cases c with ⟨letter, hletter, h⟩ | ⟨hfresh, hcontrol, h⟩ | ⟨hfresh, hplain, h⟩
  · obtain ⟨-, -, hl, hrange, hback⟩ := shortEscapes_spec hletter
    exact .inr ⟨letter, [], h, hback, hl, hrange, List.forall_mem_nil _⟩
  · obtain ⟨a, b, hdigits, -, ha, hb⟩ := hexDigits_control c.toNat hcontrol
    have hback : c ≠ '\\' := hfresh ('\\', '\\') (by simp [shortEscapes])
    rw [hdigits] at h
    refine .inr ⟨'u', _, h, by simp [hback], by decide, by decide, ?_⟩
    simp only [List.forall_mem_cons]
    exact ⟨by decide, by decide, ha, hb, List.forall_mem_nil _⟩
  · have hquote : c ≠ '"' := hfresh ('"', '"') (by simp [shortEscapes])
    have hback : c ≠ '\\' := hfresh ('\\', '\\') (by simp [shortEscapes])
    exact .inl ⟨h, hquote, hback, hplain⟩

/-- Escapes and quoted texts have no control characters. -/
theorem le_toNat_of_mem_escape {c d : Char} (h : d ∈ escape c) : 0x20 ≤ d.toNat := by
  rcases escape_shape c with ⟨hc, -, -, hplain⟩ | ⟨letter, digits, hc, -, -, hletter, hdigits⟩
  · rw [hc, List.mem_singleton] at h
    rw [h]
    exact hplain
  · rw [hc, List.mem_cons, List.mem_cons] at h
    rcases h with rfl | rfl | h
    · decide
    · exact hletter
    · exact (hdigits d h).2.2

theorem le_toNat_of_mem_quote {cs : List Char} {d : Char} (h : d ∈ quote cs) : 0x20 ≤ d.toNat := by
  rw [quote, List.mem_cons, List.mem_append, List.mem_flatMap, List.mem_singleton] at h
  rcases h with rfl | ⟨c, -, h⟩ | rfl
  · decide
  · exact le_toNat_of_mem_escape h
  · decide

theorem escape_of_plain {c : Char} (hcontrol : 0x20 ≤ c.toNat) (hquote : c ≠ '"')
    (hback : c ≠ '\\') : escape c = [c] := by
  rcases escape_cases c with ⟨letter, hletter, -⟩ | ⟨-, hlow, -⟩ | ⟨-, -, h⟩
  · have hall : shortEscapes.all (fun p => p.1 = '"' ∨ p.1 = '\\' ∨ p.1.toNat < 0x20) = true := by
      decide
    rcases of_decide_eq_true (List.all_eq_true.1 hall _ hletter) with h | h | h
    · exact absurd h hquote
    · exact absurd h hback
    · exact absurd hcontrol (Nat.not_le.2 h)
  · exact absurd hcontrol (Nat.not_le.2 hlow)
  · exact h

/-! ## Reading -/

theorem plain_of_hexUnit? {a b c d : Char} {code : Nat} (h : hexUnit? a b c d = some code) :
    ∀ x ∈ [a, b, c, d], x ≠ '"' ∧ x ≠ '\\' := by
  have hplain : ∀ {x : Char} {n : Nat}, hexDigit? x = some n → x ≠ '"' ∧ x ≠ '\\' := by
    intro x n hx
    constructor
    · rintro rfl
      exact absurd (hx.symm.trans (show hexDigit? '"' = none by decide)) nofun
    · rintro rfl
      exact absurd (hx.symm.trans (show hexDigit? '\\' = none by decide)) nofun
  unfold hexUnit? at h
  split at h
  · next ha hb hc hd =>
    simp only [List.forall_mem_cons]
    exact ⟨hplain ha, hplain hb, hplain hc, hplain hd, List.forall_mem_nil _⟩
  · cases h

theorem readUnits_letter (opening : List Char) {letter d : Char} (hletter : letter ≠ 'u')
    (hd : unescape? letter = some d) (following : List Char) :
    readUnits opening ('\\' :: letter :: following) =
      (readUnits opening following).map fun r => (d.toNat :: r.1, r.2) := by
  rw [readUnits.eq_def]
  simp [hletter, hd]

theorem readUnits_unit (opening : List Char) {d₁ d₂ d₃ d₄ : Char} {code : Nat}
    (hcode : hexUnit? d₁ d₂ d₃ d₄ = some code) {following : List Char}
    (hfollowing : following ≠ []) :
    readUnits opening ('\\' :: 'u' :: d₁ :: d₂ :: d₃ :: d₄ :: following) =
      (readUnits opening following).map fun r => (code :: r.1, r.2) := by
  rw [readUnits, if_neg (by decide), if_pos rfl]
  simp only [if_true, hcode, List.isEmpty_eq_false_iff.2 hfollowing]

/-- An escape of a code unit that is read has its four digits. -/
theorem exists_digits_of_readUnits {opening tail : List Char} {r : List Nat × List Char}
    (h : readUnits opening ('\\' :: 'u' :: tail) = .ok r) :
    ∃ d₁ d₂ d₃ d₄ rest code, tail = d₁ :: d₂ :: d₃ :: d₄ :: rest ∧
      hexUnit? d₁ d₂ d₃ d₄ = some code := by
  rw [readUnits.eq_def] at h
  simp only [Char.reduceEq, if_true, if_false] at h
  split at h
  · next d₁ d₂ d₃ d₄ rest =>
    split at h
    · next code hcode _ => exact ⟨d₁, d₂, d₃, d₄, rest, code, rfl, hcode⟩
    · cases h
  · cases h

theorem readUnits_plain (opening : List Char) {c : Char} (hquote : c ≠ '"') (hback : c ≠ '\\')
    (hcontrol : ¬c.toNat < 0x20) (following : List Char) :
    readUnits opening (c :: following) =
      (readUnits opening following).map fun r => (c.toNat :: r.1, r.2) := by
  rw [readUnits.eq_def]
  simp only [if_neg hquote, if_neg hback, if_neg hcontrol]

theorem readUnits_escape (opening : List Char) (c : Char) {following : List Char}
    (hfollowing : following ≠ []) :
    readUnits opening (escape c ++ following) =
      (readUnits opening following).map fun r => (c.toNat :: r.1, r.2) := by
  rcases escape_cases c with ⟨letter, hletter, h⟩ | ⟨-, hcontrol, h⟩ | ⟨hfresh, hplain, h⟩
  · obtain ⟨hunescape, hu, -⟩ := shortEscapes_spec hletter
    rw [h]
    exact readUnits_letter opening hu hunescape following
  · obtain ⟨a, b, hdigits, hunit, -⟩ := hexDigits_control c.toNat hcontrol
    rw [h, hdigits]
    exact readUnits_unit opening hunit hfollowing
  · have hquote : c ≠ '"' := hfresh ('"', '"') (by simp [shortEscapes])
    have hback : c ≠ '\\' := hfresh ('\\', '\\') (by simp [shortEscapes])
    rw [h]
    exact readUnits_plain opening hquote hback (Nat.not_lt.2 hplain) following

theorem readUnits_quote (opening cs rest : List Char) :
    readUnits opening (cs.flatMap escape ++ '"' :: rest) = .ok (cs.map Char.toNat, rest) := by
  induction cs with
  | nil =>
      rw [List.flatMap_nil, List.nil_append, readUnits.eq_def]
      simp
  | cons c cs ih =>
      rw [List.flatMap_cons, List.append_assoc, readUnits_escape opening c (by simp), ih]
      rfl

/-- No character is half a surrogate pair. -/
theorem not_surrogate (c : Char) :
    isHighSurrogate c.toNat = false ∧ isLowSurrogate c.toNat = false := by
  have hvalid : c.toNat < 0xd800 ∨ 0xdfff < c.toNat ∧ c.toNat < 0x110000 := c.valid
  simp only [isHighSurrogate, isLowSurrogate, Bool.and_eq_false_iff, decide_eq_false_iff_not]
  omega

theorem joinUnits_map_toNat (cs : List Char) : joinUnits none (cs.map Char.toNat) = cs := by
  induction cs with
  | nil => rfl
  | cons c cs ih =>
      obtain ⟨hhigh, hlow⟩ := not_surrogate c
      rw [List.map_cons, joinUnits, hhigh, hlow, if_neg (by simp), if_neg (by simp), ih,
        Char.ofNat_toNat]

/-- A quoted text reads as itself. -/
theorem readString_quote (opening cs rest : List Char) :
    readString opening ((quote cs).drop 1 ++ rest) = .ok (cs, rest) := by
  have hdrop : (quote cs).drop 1 ++ rest = cs.flatMap escape ++ '"' :: rest := by simp [quote]
  rw [readString, hdrop, readUnits_quote]
  exact congrArg (fun text => Except.ok (text, rest)) (joinUnits_map_toNat cs)

end HighlightGraph.Json
