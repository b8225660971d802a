import HighlightGraph.Proofs.Attributes.RoundTrip
import HighlightGraph.Proofs.Result
import Mathlib.Data.List.DropRight
/-!
# Reading goes on after a separator

The reader never looks beyond a separator: what it reads from a text, it reads as well where another
text follows after one.
-/

namespace HighlightGraph.Attributes

/-! ## Separators -/

theorem isDigit_of_isSeparator {c : Char} (h : isSeparator c = true) : Text.isDigit c = false := by
  have hzeros : ∀ start ∈ Text.digitZeros,
      start = 0x30 ∨ 0xa0 < start ∧ start + 10 ≤ 0x1680 ∨ 0x1680 < start ∧ start + 10 ≤ 0x2000 ∨
        0x3000 < start := by
    decide
  have hcode : c.toNat ≤ 0x2c ∨ c.toNat = 0x3b ∨ 0x85 ≤ c.toNat ∧ c.toNat ≤ 0xa0 ∨
      c.toNat = 0x1680 ∨ 0x2000 ≤ c.toNat ∧ c.toNat ≤ 0x3000 := by
    simp only [isSeparator, Text.isBlank, Bool.or_eq_true, Bool.and_eq_true, beq_iff_eq,
      decide_eq_true_eq] at h
    rcases h with (h | rfl) | rfl
    · omega
    · decide
    · decide
  rw [Text.isDigit, Text.digit?, Option.isSome_map, Option.isSome_eq_false_iff,
    Option.isNone_iff_eq_none, List.find?_eq_none]
  intro start hstart
  have hstart := hzeros start hstart
  simp only [Bool.and_eq_true, decide_eq_true_eq]
  omega

theorem isWordChar_of_isSeparator {c : Char} (h : isSeparator c = true) : isWordChar c = false := by
  rw [← Bool.not_eq_true, isWordChar, isNameChar, Bool.or_eq_true, Bool.or_eq_true]
  rintro ((hstart | hdigit) | hpoint)
  · rw [isSeparator_of_isNameStart hstart] at h
    cases h
  · have hnone := isDigit_of_isSeparator h
    rw [Text.isDigit_of_isDigit hdigit] at hnone
    cases hnone
  · rw [of_decide_eq_true hpoint] at h
    exact absurd h (by decide)

def Separated (tail : List Char) : Prop := ∀ c ∈ tail.head?, isSeparator c = true

section Separated

variable {cs tail : List Char} (htail : Separated tail)
include htail

theorem Separated.ne_cons {c : Char} (hc : isSeparator c = false) (rest : List Char) :
    tail ≠ c :: rest := by
  rintro rfl
  rw [htail c rfl] at hc
  cases hc

theorem takeWhile_append_of_separated {p : Char → Bool}
    (hp : ∀ c, isSeparator c = true → p c = false) (cs : List Char) :
    (cs ++ tail).takeWhile p = cs.takeWhile p := by
  have hnone : tail.takeWhile p = [] := by
    cases tail with
    | nil => rfl
    | cons c rest => rw [List.takeWhile_cons_of_neg (by simp [hp c (htail c rfl)])]
  rw [List.takeWhile_append, hnone, List.append_nil]
  split
  · next hall => rw [List.IsPrefix.eq_of_length (List.takeWhile_prefix p) hall]
  · rfl

theorem dropWhile_append_of_separated {p : Char → Bool}
    (hp : ∀ c, isSeparator c = true → p c = false) (cs : List Char) :
    (cs ++ tail).dropWhile p = cs.dropWhile p ++ tail := by
  have hall : tail.dropWhile p = tail := by
    cases tail with
    | nil => rfl
    | cons c rest => rw [List.dropWhile_cons_of_neg (by simp [hp c (htail c rfl)])]
  rw [List.dropWhile_append, hall]
  split
  · next hempty => rw [List.isEmpty_iff.1 hempty, List.nil_append]
  · rfl

/-! ## Tokens -/

theorem splitDigits_append (cs : List Char) :
    Numeral.splitDigits Text.isDigit (cs ++ tail) =
      ((Numeral.splitDigits Text.isDigit cs).1,
        (Numeral.splitDigits Text.isDigit cs).2 ++ tail) := by
  rw [Numeral.splitDigits, Numeral.splitDigits,
    takeWhile_append_of_separated htail (fun _ => isDigit_of_isSeparator),
    dropWhile_append_of_separated htail (fun _ => isDigit_of_isSeparator)]

theorem readPlaces?_append (cs : List Char) :
    readPlaces? (cs ++ tail) = (readPlaces? cs).map fun (whole, fraction, after) =>
      (whole, fraction, after ++ tail) := by
  rw [readPlaces?, readPlaces?, splitDigits_append htail]
  generalize Numeral.splitDigits Text.isDigit cs = digits
  obtain ⟨whole, after⟩ := digits
  rcases after with _ | ⟨c, rest⟩
  · have hpoint := htail.ne_cons (c := '.') (by decide)
    rcases whole with _ | ⟨d, whole⟩ <;> rcases tail with _ | ⟨c, rest⟩ <;> simp_all
  · by_cases hc : c = '.'
    · subst hc
      rcases whole with _ | ⟨d, whole⟩
      · simp only [List.cons_append, splitDigits_append htail]
        rcases Numeral.splitDigits Text.isDigit rest with ⟨_ | ⟨d, fraction⟩, after⟩ <;> rfl
      · simp only [List.cons_append, splitDigits_append htail, Option.map_some]
    · rcases whole with _ | ⟨d, whole⟩ <;> simp [hc]

theorem readMinus_append (cs : List Char) :
    Numeral.readMinus (cs ++ tail) =
      ((Numeral.readMinus cs).1, (Numeral.readMinus cs).2 ++ tail) := by
  cases cs with
  | nil =>
    have hminus := htail.ne_cons (c := '-') (by decide)
    rw [List.nil_append, Numeral.readMinus.eq_def]
    split
    · next rest => exact absurd rfl (hminus rest)
    · rfl
  | cons c rest =>
    rw [List.cons_append, Numeral.readMinus.eq_def, Numeral.readMinus.eq_def (c :: rest)]
    by_cases hc : c = '-' <;> simp [hc]

theorem readSign_append (cs : List Char) :
    Numeral.readSign (cs ++ tail) =
      ((Numeral.readSign cs).1, (Numeral.readSign cs).2 ++ tail) := by
  cases cs with
  | nil =>
    have hminus := htail.ne_cons (c := '-') (by decide)
    have hplus := htail.ne_cons (c := '+') (by decide)
    rw [List.nil_append, Numeral.readSign.eq_def]
    split
    · next rest => exact absurd rfl (hminus rest)
    · next rest => exact absurd rfl (hplus rest)
    · rfl
  | cons c rest =>
    rw [List.cons_append, Numeral.readSign.eq_def, Numeral.readSign.eq_def (c :: rest)]
    by_cases hminus : c = '-'
    · simp [hminus]
    · by_cases hplus : c = '+' <;> simp [hminus, hplus]

theorem readExponent_append (cs : List Char) :
    Numeral.readExponent Text.isDigit (cs ++ tail) =
      ((Numeral.readExponent Text.isDigit cs).1,
        (Numeral.readExponent Text.isDigit cs).2 ++ tail) := by
  cases cs with
  | nil =>
    cases tail with
    | nil => rfl
    | cons c rest =>
      have hc : ¬ (c = 'e' ∨ c = 'E') := by
        rintro (rfl | rfl) <;> exact htail.ne_cons (by decide) rest rfl
      simp [Numeral.readExponent, hc]
  | cons c rest =>
    rw [List.cons_append, Numeral.readExponent, Numeral.readExponent]
    split
    · rw [readSign_append htail]
      dsimp only
      rw [splitDigits_append htail]
      rcases Numeral.splitDigits Text.isDigit (Numeral.readSign rest).2 with
        ⟨_ | ⟨d, digits⟩, after⟩ <;> rfl
    · rfl

theorem readNumeral?_append (cs : List Char) :
    readNumeral? (cs ++ tail) = (readNumeral? cs).map fun (numeral, after) =>
      (numeral, after ++ tail) := by
  rw [readNumeral?, readNumeral?, readMinus_append htail]
  dsimp only
  rw [readPlaces?_append htail, Option.map_map, Option.map_map]
  congr 1
  funext places
  simp only [Function.comp_apply, readExponent_append htail]

theorem readWord?_append (cs : List Char) :
    readWord? (cs ++ tail) = (readWord? cs).map fun (word, after) => (word, after ++ tail) := by
  cases cs with
  | nil =>
    cases tail with
    | nil => rfl
    | cons c rest =>
      have hc : isNameStart c = false := by
        rw [← Bool.not_eq_true]
        intro hstart
        exact htail.ne_cons (isSeparator_of_isNameStart hstart) rest rfl
      simp [readWord?, hc]
  | cons c rest =>
    rw [List.cons_append, readWord?, readWord?,
      takeWhile_append_of_separated htail (fun _ => isWordChar_of_isSeparator),
      dropWhile_append_of_separated htail (fun _ => isWordChar_of_isSeparator)]
    split <;> rfl

end Separated

/-! ## Items -/

/-- A literal that ends goes on as before when a text follows. -/
theorem delimit_extend {cs inside after : List Char} (h : Quoted.delimit cs = some (inside, after))
    (tail : List Char) : Quoted.delimit (cs ++ tail) = some (inside, after ++ tail) := by
  fun_induction Quoted.delimit cs generalizing inside after with
  | case1 => cases h
  | case2 rest =>
    cases h
    rw [List.cons_append, Quoted.delimit.eq_def]
    rfl
  | case3 => cases h
  | case4 d rest _ ih =>
    obtain ⟨⟨inner, left⟩, hread, ⟨⟩⟩ := Option.map_eq_some_iff.1 h
    rw [List.cons_append, List.cons_append, Quoted.delimit_backslash, ih hread]
    rfl
  | case5 c rest hquote hbackslash ih =>
    obtain ⟨⟨inner, left⟩, hread, ⟨⟩⟩ := Option.map_eq_some_iff.1 h
    rw [List.cons_append, Quoted.delimit_cons hquote hbackslash, ih hread]
    rfl

theorem splitMarkup_extend {depth : Nat} {cs inside after : List Char}
    (h : splitMarkup depth cs = some (inside, after)) (tail : List Char) :
    splitMarkup depth (cs ++ tail) = some (inside, after ++ tail) := by
  induction cs generalizing depth inside after with
  | nil => cases h
  | cons c rest ih =>
    have hmap : ∀ {next : Nat},
        (splitMarkup next rest).map (fun r => (c :: r.1, r.2)) = some (inside, after) →
          (splitMarkup next (rest ++ tail)).map (fun r => (c :: r.1, r.2)) =
            some (inside, after ++ tail) := by
      intro next hnext
      obtain ⟨⟨inner, left⟩, hread, ⟨⟩⟩ := Option.map_eq_some_iff.1 hnext
      rw [ih hread]
      rfl
    rw [splitMarkup] at h
    rw [List.cons_append, splitMarkup]
    by_cases hopen : c = '<'
    · rw [if_pos hopen] at h ⊢
      exact hmap h
    rw [if_neg hopen] at h ⊢
    by_cases hclose : c = '>'
    · rw [if_pos hclose] at h ⊢
      by_cases hlast : depth = 1
      · rw [if_pos hlast] at h ⊢
        cases h
        rfl
      · rw [if_neg hlast] at h ⊢
        exact hmap h
    · rw [if_neg hclose] at h ⊢
      exact hmap h

/-- A run of characters that ends within a text ends there as well when a text follows. -/
theorem span_extend {p : Char → Bool} {cs : List Char} (h : cs.dropWhile p ≠ [])
    (tail : List Char) :
    (cs ++ tail).takeWhile p = cs.takeWhile p ∧
      (cs ++ tail).dropWhile p = cs.dropWhile p ++ tail := by
  have hlength : (cs.takeWhile p).length + (cs.dropWhile p).length = cs.length := by
    rw [← List.length_append, List.takeWhile_append_dropWhile]
  have hpos := List.length_pos_iff.2 h
  constructor
  · rw [List.takeWhile_append, if_neg (by omega)]
  · rw [List.dropWhile_append, if_neg (by simpa using h)]

theorem readName?_extend {cs rest : List Char} {name : String}
    (h : readName? cs = some (name, rest)) (hrest : rest ≠ []) (tail : List Char) :
    readName? (cs ++ tail) = some (name, rest ++ tail) := by
  unfold readName? at h
  split at h
  · cases h
  · next c more hstart =>
    split at h
    · next hc =>
      split at h
      · next after hequals =>
        cases h
        have hstart' : skipBlanks (cs ++ tail) = c :: (more ++ tail) := by
          rw [skipBlanks, (span_extend (by rw [← skipBlanks, hstart]; simp) tail).2, ← skipBlanks,
            hstart, List.cons_append]
        have hname : more.dropWhile isNameChar ≠ [] := by
          intro hnil
          rw [hnil] at hequals
          cases hequals
        have hequals' :
            skipBlanks (more.dropWhile isNameChar ++ tail) = '=' :: (after ++ tail) := by
          rw [skipBlanks, (span_extend (by rw [← skipBlanks, hequals]; simp) tail).2, ← skipBlanks,
            hequals, List.cons_append]
        have hafter : skipBlanks (after ++ tail) = skipBlanks after ++ tail :=
          (span_extend hrest tail).2
        rw [readName?, hstart']
        simp only [if_pos hc, span_extend hname tail, hequals', hafter]
      · cases h
    · cases h

theorem skipSeparators_skipSeparators (cs : List Char) :
    skipSeparators (skipSeparators cs) = skipSeparators cs :=
  List.dropWhile_idempotent _ cs

theorem skipSeparators_append (cs tail : List Char) :
    skipSeparators (skipSeparators cs ++ tail) = skipSeparators (cs ++ tail) := by
  simp only [skipSeparators, List.dropWhile_append, List.dropWhile_idempotent]

theorem skipSeparators_eq_self_of_readItem {cs after : List Char} {item : String × Value}
    (h : readItem cs = .ok (item, after)) : skipSeparators after = after := by
  unfold readItem at h
  split at h
  · cases h
  · obtain ⟨read, -, heq⟩ := map_eq_ok h
    cases heq
    exact skipSeparators_skipSeparators _

section Items

variable {tail : List Char} (htail : Separated tail)
include htail

theorem readValue_append {name : String} {cs after : List Char} {v : Value}
    (h : readValue name cs = .ok (v, after)) :
    readValue name (cs ++ tail) = .ok (v, after ++ tail) := by
  cases cs with
  | nil => cases h
  | cons c rest =>
    have hnumeral := readNumeral?_append htail (c :: rest)
    have hword := readWord?_append htail (c :: rest)
    rw [List.cons_append] at hnumeral hword ⊢
    rw [readValue] at h ⊢
    split at h
    · next hquote =>
      rw [if_pos hquote]
      split at h
      · cases h
      · next inside left hdelimit =>
        rw [delimit_extend hdelimit tail]
        dsimp only
        split at h
        · cases h
        · cases h
          rfl
    · next hquote =>
      rw [if_neg hquote]
      split at h
      · next hangle =>
        rw [if_pos hangle]
        split at h
        · cases h
        · next markup left hmarkup =>
          cases h
          rw [← List.cons_append, splitMarkup_extend hmarkup tail]
      · next hangle =>
        rw [if_neg hangle, hnumeral, hword]
        split at h
        · next numeral left hread =>
          rw [hread]
          dsimp only [Option.map_some]
          split at h
          · cases h
          · cases h
            rfl
        · next hnone =>
          rw [hnone]
          dsimp only [Option.map_none]
          split at h
          · next word left hread =>
            cases h
            rw [hread]
            rfl
          · cases h

theorem readItem_append {cs after : List Char} {item : String × Value}
    (h : readItem cs = .ok (item, after)) :
    readItem (cs ++ tail) = .ok (item, skipSeparators (after ++ tail)) := by
  unfold readItem at h
  split at h
  · cases h
  · next name rest hname =>
    obtain ⟨⟨v, left⟩, hvalue, heq⟩ := map_eq_ok h
    cases heq
    have hrest : rest ≠ [] := by
      rintro rfl
      cases hvalue
    rw [readItem, readName?_extend hname hrest tail]
    dsimp only
    rw [readValue_append htail hvalue, skipSeparators_append]
    rfl

/-- Items are read as before when a text follows after a separator, and then those of that text. -/
theorem readItems_append_of_skipped {cs : List Char} {items : List (String × Value)}
    (hcs : skipSeparators cs = cs) (h : readItems cs = .ok items) :
    readItems (skipSeparators (cs ++ tail)) =
      (readItems (skipSeparators tail)).map (items ++ ·) := by
  fun_induction readItems cs generalizing items with
  | case1 cs hempty =>
    cases h
    rw [List.isEmpty_iff.1 hempty, List.nil_append]
    cases readItems (skipSeparators tail) <;> rfl
  | case2 => cases h
  | case3 cs hempty item rest hitem ih =>
    obtain ⟨items, hrest, rfl⟩ := map_eq_ok h
    have hskip : skipSeparators (cs ++ tail) = cs ++ tail := by
      have hne : cs.dropWhile isSeparator ≠ [] := by
        rw [← skipSeparators, hcs]
        simpa using hempty
      rw [skipSeparators, (span_extend hne tail).2, ← skipSeparators, hcs]
    rw [hskip, readItems_cons (readItem_append htail hitem),
      ih (skipSeparators_eq_self_of_readItem hitem) hrest]
    cases readItems (skipSeparators tail) <;> rfl

theorem readItems_append {cs : List Char} {items : List (String × Value)}
    (h : readItems (skipSeparators cs) = .ok items) :
    readItems (skipSeparators (cs ++ tail)) =
      (readItems (skipSeparators tail)).map (items ++ ·) := by
  rw [← skipSeparators_append]
  exact readItems_append_of_skipped htail (skipSeparators_skipSeparators cs) h

end Items

end HighlightGraph.Attributes
