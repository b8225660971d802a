import HighlightGraph.Json.Printer
import HighlightGraph.Json.Reader
import HighlightGraph.Proofs.Attributes.Values
import HighlightGraph.Proofs.Json.Quoted
import HighlightGraph.Proofs.Number.Shortest
import Mathlib.Algebra.Group.Nat.Defs
/-!
# Printed scalars read back

What the reader makes of the text of a value that has no parts. A printed value is followed by
nothing, by a comma or by a line end, so that no numeral goes on behind it.
-/

namespace HighlightGraph

/-! ## Digits -/

theorem Text.lt_of_digit?_eq_some {c : Char} {n : Nat} (h : digit? c = some n) : n < 10 := by
  rw [digit?, Option.map_eq_some_iff] at h
  obtain ⟨start, hstart, rfl⟩ := h
  have hrange := List.find?_some hstart
  rw [Bool.and_eq_true, decide_eq_true_eq, decide_eq_true_eq] at hrange
  omega

namespace Numeral

def digitValues (cs : List Char) : List Nat := cs.map fun c => c.toNat - '0'.toNat

/-- Whether a numeral ends before a text, which begins with none of its characters. -/
def EndsBefore (rest : List Char) : Prop :=
  ∀ c ∈ rest.head?, c.isDigit = false ∧ c ≠ '.' ∧ c ≠ 'e' ∧ c ≠ 'E'

theorem splitDigits_append {isDigit : Char → Bool}
    (hascii : ∀ c : Char, c.isDigit = true → isDigit c = true) {digits : List Char}
    (hdigits : ∀ c ∈ digits, c.isDigit = true) {rest : List Char}
    (hrest : ∀ c ∈ rest.head?, isDigit c = false) :
    splitDigits isDigit (digits ++ rest) = (digitValues digits, rest) := by
  have hrun : ∀ c ∈ digits, isDigit c = true := fun c hc => hascii c (hdigits c hc)
  cases rest with
  | nil =>
      rw [List.append_nil, splitDigits, List.takeWhile_eq_self_iff.2 hrun,
        List.dropWhile_eq_nil_iff.2 hrun, Attributes.filterMap_digit? hdigits]
      rfl
  | cons c rest =>
      have hc : isDigit c = false := hrest c rfl
      rw [splitDigits, Attributes.takeWhile_append hrun hc, Attributes.dropWhile_append hrun hc,
        Attributes.filterMap_digit? hdigits]
      rfl

theorem digitValues_eq_cons {digits : List Char} (h : IsDigits digits) :
    ∃ n ns, digitValues digits = n :: ns := by
  obtain ⟨c, cs, rfl⟩ := List.exists_cons_of_ne_nil h.1
  exact ⟨_, _, rfl⟩

theorem ofDigits_lt {digits : List Nat} (h : ∀ digit ∈ digits, digit < 10) :
    ofDigits digits < 10 ^ digits.length := by
  induction digits using List.reverseRecOn with
  | nil => exact Nat.one_pos
  | append_singleton digits digit ih =>
      rw [List.forall_mem_append, List.forall_mem_singleton] at h
      have hrest := ih h.1
      have hdigit := h.2
      rw [ofDigits, List.foldl_append, List.length_append, List.length_singleton, Nat.pow_succ]
      show 10 * ofDigits digits + digit < _
      omega

theorem lt_of_mem_splitDigits (isDigit : Char → Bool) (cs : List Char) :
    ∀ digit ∈ (splitDigits isDigit cs).1, digit < 10 := by
  intro digit hdigit
  obtain ⟨c, -, hc⟩ := List.mem_filterMap.1 hdigit
  exact Text.lt_of_digit?_eq_some hc

theorem natAbs_signed (negative : Bool) (n : Nat) : (signed negative n).natAbs = n := by
  cases negative
  · rfl
  · exact Int.natAbs_neg n

theorem value_cases {numeral : Numeral} (h : ∀ digit ∈ numeral.whole, digit < 10) {v : Value}
    (hv : numeral.value = .ok v) :
    (∃ n, v = .int n ∧ (Nat.toDigits 10 n.natAbs).length ≤ maxIntegerDigits) ∨
      ∃ x, v = .float x := by
  unfold value at hv
  split at hv
  · split at hv
    · cases hv
    · next hlength =>
      cases hv
      refine .inl ⟨_, rfl, ?_⟩
      rw [natAbs_signed, Nat.length_toDigits_le_iff (by decide) (by decide)]
      calc ofDigits numeral.whole
          < 10 ^ numeral.whole.length := ofDigits_lt h
        _ ≤ 10 ^ maxIntegerDigits := Nat.pow_le_pow_right (by decide) (Nat.le_of_not_lt hlength)
  · cases hv
    exact .inr ⟨_, rfl⟩

/-! ## Fractions and exponents -/

def fractionValues? : List Char → Option (List Nat)
  | '.' :: digits => some (digitValues digits)
  | _ => none

def exponentValue? : List Char → Option Int
  | 'e' :: sign :: digits => some (signed (sign = '-') (ofDigits (digitValues digits)))
  | _ => none

theorem isSome_fractionValues? {fraction : List Char} (h : IsFraction fraction)
    (hne : fraction ≠ []) : (fractionValues? fraction).isSome = true := by
  rcases h with rfl | ⟨digits, -, rfl⟩
  · exact absurd rfl hne
  · rfl

theorem isSome_exponentValue? {exponent : List Char} (h : IsExponent exponent)
    (hne : exponent ≠ []) : (exponentValue? exponent).isSome = true := by
  rcases h with rfl | ⟨sign, digits, -, -, rfl⟩
  · exact absurd rfl hne
  · rfl

theorem readExponent_append {isDigit : Char → Bool}
    (hascii : ∀ c : Char, c.isDigit = true → isDigit c = true) {exponent rest : List Char}
    (h : IsExponent exponent)
    (hrest : ∀ c ∈ rest.head?, isDigit c = false ∧ c ≠ 'e' ∧ c ≠ 'E') :
    readExponent isDigit (exponent ++ rest) = (exponentValue? exponent, rest) := by
  rcases h with rfl | ⟨sign, digits, hsign, hdigits, rfl⟩
  · cases rest with
    | nil => rfl
    | cons c rest =>
        obtain ⟨-, he, hE⟩ := hrest c rfl
        rw [List.nil_append, readExponent, if_neg (by simp [he, hE])]
        rfl
  · obtain ⟨n, ns, hns⟩ := digitValues_eq_cons hdigits
    have hsplit := splitDigits_append hascii hdigits.2 fun c hc => (hrest c hc).1
    have hsigned : readSign (sign :: (digits ++ rest)) =
        (decide (sign = '-'), digits ++ rest) := by
      rcases hsign with rfl | rfl <;> rfl
    rw [List.cons_append, List.cons_append, readExponent, if_pos (.inl rfl), hsigned, hsplit,
      exponentValue?, hns]

theorem isDigit_of_head?_exponent {exponent rest : List Char} (h : IsExponent exponent)
    (hrest : EndsBefore rest) : ∀ c ∈ (exponent ++ rest).head?, c.isDigit = false ∧ c ≠ '.' := by
  rcases h with rfl | ⟨sign, digits, -, -, rfl⟩
  · exact fun c hc => ⟨(hrest c hc).1, (hrest c hc).2.1⟩
  · rintro c ⟨⟩
    exact ⟨by decide, by decide⟩

theorem isDigit_of_head?_fraction {fraction rest : List Char} (h : IsFraction fraction)
    (hrest : ∀ c ∈ rest.head?, c.isDigit = false) :
    ∀ c ∈ (fraction ++ rest).head?, c.isDigit = false := by
  rcases h with rfl | ⟨digits, -, rfl⟩
  · exact hrest
  · rintro c ⟨⟩
    decide

/-- A numeral with a point or an exponent is a double. -/
theorem exists_float_of_parts (numeral : Numeral)
    (h : numeral.fraction.isSome = true ∨ numeral.exponent.isSome = true) :
    ∃ x, numeral.value = .ok (.float x) := by
  unfold value
  split
  · next hfraction hexponent =>
    rw [hfraction, hexponent] at h
    rcases h with h | h <;> cases h
  · exact ⟨_, rfl⟩

end Numeral

namespace Json

/-! ## Numerals -/

theorem readWhole?_append {whole rest : List Char} (h : Numeral.IsWhole whole)
    (hrest : ∀ c ∈ rest.head?, c.isDigit = false) :
    readWhole? (whole ++ rest) = some (Numeral.digitValues whole, rest) := by
  obtain ⟨hdigits, hzero⟩ := h
  obtain ⟨c, cs, rfl⟩ := List.exists_cons_of_ne_nil hdigits.1
  by_cases hc : c = '0'
  · subst hc
    obtain rfl : cs = [] := List.tail_eq_of_cons_eq (hzero rfl)
    rfl
  · have hsplit := Numeral.splitDigits_append (fun _ h => h) hdigits.2 hrest
    rw [List.cons_append] at hsplit ⊢
    rw [readWhole?.eq_def]
    simp only [hsplit]
    split
    · next heq =>
      cases heq
      exact absurd rfl hc
    · rfl

/-- A fraction is read up to what follows it, be it an exponent or the end. -/
theorem readFraction_append {fraction rest : List Char} (h : Numeral.IsFraction fraction)
    (hrest : ∀ c ∈ rest.head?, c.isDigit = false ∧ c ≠ '.') :
    readFraction (fraction ++ rest) = (Numeral.fractionValues? fraction, rest) := by
  rcases h with rfl | ⟨digits, hdigits, rfl⟩
  · rw [List.nil_append, readFraction.eq_def]
    split
    · next after => exact absurd rfl (hrest '.' rfl).2
    · rfl
  · obtain ⟨n, ns, hns⟩ := Numeral.digitValues_eq_cons hdigits
    have hsplit := Numeral.splitDigits_append (fun _ h => h) hdigits.2
      fun c hc => (hrest c hc).1
    rw [List.cons_append, readFraction, hsplit, Numeral.fractionValues?, hns]

theorem readMinus_append (negative : Bool) {c : Char} (hc : c.isDigit = true) (rest : List Char) :
    Numeral.readMinus ((if negative then ['-'] else []) ++ c :: rest) = (negative, c :: rest) := by
  have hne : c ≠ '-' := by
    rintro rfl
    exact absurd hc (by decide)
  cases negative with
  | true => rfl
  | false =>
      show Numeral.readMinus (c :: rest) = _
      rw [Numeral.readMinus.eq_def]
      simp [hne]

/-- A numeral is read up to its end, with the parts that it is written with. -/
theorem readNumeral?_append (negative : Bool) {whole fraction exponent rest : List Char}
    (hwhole : Numeral.IsWhole whole) (hfraction : Numeral.IsFraction fraction)
    (hexponent : Numeral.IsExponent exponent) (hrest : Numeral.EndsBefore rest) :
    readNumeral? ((if negative then ['-'] else []) ++
        (whole ++ (fraction ++ (exponent ++ rest)))) =
      some (⟨negative, Numeral.digitValues whole, Numeral.fractionValues? fraction,
        Numeral.exponentValue? exponent⟩, rest) := by
  have hexponentHead := Numeral.isDigit_of_head?_exponent hexponent hrest
  have hfractionHead := Numeral.isDigit_of_head?_fraction hfraction
    fun c hc => (hexponentHead c hc).1
  have hexponentRead := Numeral.readExponent_append (fun _ h => h) hexponent
    fun c hc => ⟨(hrest c hc).1, (hrest c hc).2.2⟩
  have hminus : Numeral.readMinus ((if negative then ['-'] else []) ++
      (whole ++ (fraction ++ (exponent ++ rest)))) =
        (negative, whole ++ (fraction ++ (exponent ++ rest))) := by
    obtain ⟨c, cs, rfl⟩ := List.exists_cons_of_ne_nil hwhole.1.1
    exact readMinus_append negative (hwhole.1.2 c List.mem_cons_self) _
  simp only [readNumeral?, hminus, readWhole?_append hwhole hfractionHead, Option.map_some,
    readFraction_append hfraction hexponentHead, hexponentRead]

/-! ## Scalars -/

/-- No word begins like a numeral. -/
theorem readWord?_eq_none (negative : Bool) {c : Char} (hc : c.isDigit = true) (rest : List Char) :
    readWord? ((if negative then ['-'] else []) ++ c :: rest) = none := by
  have hfresh : ∀ d : Char, d.isDigit = false → d ≠ c := by
    rintro d hd rfl
    rw [hc] at hd
    cases hd
  have hn := hfresh 'n' (by decide)
  have ht := hfresh 't' (by decide)
  have hf := hfresh 'f' (by decide)
  have hN := hfresh 'N' (by decide)
  have hI := hfresh 'I' (by decide)
  have hminus := hfresh '-' (by decide)
  cases negative <;> simp [readWord?, words, hn, ht, hf, hN, hI, hminus]

theorem readScalar_null (rest : List Char) :
    readScalar ("null".toList ++ rest) = .ok (.null, rest) := rfl

theorem readScalar_bool (b : Bool) (rest : List Char) :
    readScalar ((if b then "true" else "false").toList ++ rest) = .ok (.bool b, rest) := by
  cases b <;> rfl

theorem readScalar_decimal {n : Int}
    (hn : (Nat.toDigits 10 n.natAbs).length ≤ maxIntegerDigits) {rest : List Char}
    (hrest : Numeral.EndsBefore rest) :
    readScalar ((decimal n).toList ++ rest) = .ok (.int n, rest) := by
  have hwhole := Numeral.isWhole_toDigits n.natAbs
  have hread := readNumeral?_append (decide (n < 0)) hwhole (.inl rfl) (.inl rfl) hrest
  have htext : (decimal n).toList ++ rest = (if decide (n < 0) = true then ['-'] else []) ++
      (Nat.toDigits 10 n.natAbs ++ ([] ++ ([] ++ rest))) := by
    rw [decimal, String.toList_ofList, List.append_assoc]
    simp only [decide_eq_true_eq, List.nil_append]
  have hword : readWord? ((decimal n).toList ++ rest) = none := by
    obtain ⟨c, cs, hcs⟩ := List.exists_cons_of_ne_nil hwhole.1.1
    rw [htext, hcs]
    exact readWord?_eq_none _ (hwhole.1.2 c (by simp [hcs])) _
  have hvalue : Numeral.value ⟨decide (n < 0), Numeral.digitValues (Nat.toDigits 10 n.natAbs),
      Numeral.fractionValues? [], Numeral.exponentValue? []⟩ = .ok (.int n) :=
    Attributes.value_decimal hn
  rw [readScalar, hword, htext]
  simp only [hread, hvalue]

theorem readScalar_finite (negative : Bool) {cs : List Char} (h : Numeral.IsDecimal cs) :
    ∃ x, ∀ rest, Numeral.EndsBefore rest →
      readScalar ((if negative then ['-'] else []) ++ (cs ++ rest)) = .ok (.float x, rest) := by
  obtain ⟨whole, fraction, exponent, rfl, hwhole, hfraction, hexponent, hne⟩ := h.parts
  obtain ⟨x, hx⟩ := Numeral.exists_float_of_parts
    ⟨negative, Numeral.digitValues whole, Numeral.fractionValues? fraction,
      Numeral.exponentValue? exponent⟩
    (hne.imp (Numeral.isSome_fractionValues? hfraction) (Numeral.isSome_exponentValue? hexponent))
  refine ⟨x, fun rest hrest => ?_⟩
  have hword : readWord? ((if negative then ['-'] else []) ++
      (whole ++ (fraction ++ (exponent ++ rest)))) = none := by
    obtain ⟨c, cs, rfl⟩ := List.exists_cons_of_ne_nil hwhole.1.1
    exact readWord?_eq_none negative (hwhole.1.2 c List.mem_cons_self) _
  rw [List.append_assoc, List.append_assoc, readScalar, hword]
  simp only [readNumeral?_append negative hwhole hfraction hexponent hrest, hx]

/-- The text of a double is read as a double. -/
theorem readScalar_double (x : Double) :
    ∃ y, ∀ rest, Numeral.EndsBefore rest →
      readScalar ((x.text .document).toList ++ rest) = .ok (.float y, rest) := by
  cases x with
  | finite negative m =>
      obtain ⟨y, hy⟩ := readScalar_finite negative m.isDecimal_text
      refine ⟨y, fun rest hrest => ?_⟩
      have htext : ((Double.finite negative m).text .document).toList =
          (if negative then ['-'] else []) ++ m.text := String.toList_ofList
      rw [htext, List.append_assoc, hy rest hrest]
  | infinite negative => exact ⟨.infinite negative, fun rest _ => by cases negative <;> rfl⟩
  | nan mark =>
      have htext : ((Double.nan mark).text .document).toList = "NaN".toList := rfl
      rw [htext]
      exact ⟨.nan 0, fun rest _ => rfl⟩

theorem lt_of_readWhole? {cs : List Char} {r : List Nat × List Char}
    (h : readWhole? cs = some r) : ∀ digit ∈ r.1, digit < 10 := by
  unfold readWhole? at h
  split at h
  · cases h
    exact List.forall_mem_singleton.2 (by decide)
  · split at h
    · cases h
    · next whole after _ hsplit =>
      cases h
      have hall := Numeral.lt_of_mem_splitDigits Char.isDigit cs
      rwa [hsplit] at hall

theorem lt_of_readNumeral? {cs : List Char} {r : Numeral × List Char}
    (h : readNumeral? cs = some r) : ∀ digit ∈ r.1.whole, digit < 10 := by
  obtain ⟨whole, hwhole, rfl⟩ := Option.map_eq_some_iff.1 h
  exact lt_of_readWhole? hwhole

/-- What is read as a scalar. An integer that is read is not too long to be read again. -/
theorem readScalar_cases {cs : List Char} {r : Value × List Char} (h : readScalar cs = .ok r) :
    r.1 = .null ∨ (∃ b, r.1 = .bool b) ∨ (∃ x, r.1 = .float x) ∨
      ∃ n, r.1 = .int n ∧ (Nat.toDigits 10 n.natAbs).length ≤ maxIntegerDigits := by
  have hwords : ∀ word ∈ words,
      word.2 = .null ∨ (∃ b, word.2 = .bool b) ∨ ∃ x, word.2 = .float x := by
    simp [words]
  unfold readScalar at h
  split at h
  · next word hword =>
    cases h
    rw [readWord?, Option.map_eq_some_iff] at hword
    obtain ⟨entry, hentry, rfl⟩ := hword
    exact (hwords entry (List.mem_of_find?_eq_some hentry)).imp id fun h => h.imp id .inl
  · split at h
    · cases h
    · next numeral _ hnumeral =>
      split at h
      · next v hv =>
        cases h
        rcases Numeral.value_cases (lt_of_readNumeral? hnumeral) hv with hint | hfloat
        · exact .inr (.inr (.inr hint))
        · exact .inr (.inr (.inl hfloat))
      · cases h

/-! ## Texts -/

theorem quote_append (cs rest : List Char) :
    quote cs ++ rest = '"' :: ((quote cs).drop 1 ++ rest) := rfl

theorem readName_quote (cs rest : List Char) :
    readName (quote cs ++ rest) = .ok (String.ofList cs, rest) := by
  rw [quote_append, readName, if_pos rfl, readString_quote]

theorem readValue_quote (fuel : Nat) (cs rest : List Char) :
    readValue (fuel + 1) (quote cs ++ rest) = .ok (.str (String.ofList cs), rest) := by
  have hname := readName_quote cs rest
  rw [quote_append] at hname ⊢
  rw [readValue, if_pos rfl, hname]
  rfl

theorem toList_quoted (s : String) : (quoted s).toList = quote s.toList :=
  String.toList_ofList

/-- A quoted text is a document of its own. -/
theorem read_quoted (s : String) : read (quoted s).toList = .ok (.str s) := by
  have hvalue := readValue_quote (2 * (quote s.toList).length + 1) s.toList []
  rw [List.append_nil, String.ofList_toList] at hvalue
  have hskip : skipSpace (quote s.toList) = quote s.toList :=
    List.dropWhile_cons_of_neg (by decide)
  rw [toList_quoted, read, hskip, hvalue]
  rfl

theorem quoted_inj {s t : String} : quoted s = quoted t ↔ s = t := by
  constructor
  · intro h
    have hread := read_quoted s
    rw [h, read_quoted t] at hread
    cases hread
    rfl
  · rintro rfl
    rfl

end Json

end HighlightGraph
