import HighlightGraph.Attributes.Format
import HighlightGraph.Attributes.Reader
import HighlightGraph.Proofs.Attributes.Quoted
/-!
# Written values read back

For each kind of value: the reader takes the whole of what was written up to the semicolon, and what
it makes of it.
-/

namespace HighlightGraph.Attributes

/-! ## Runs of characters -/

theorem takeWhile_append {p : Char → Bool} {run : List Char} (hrun : ∀ c ∈ run, p c = true)
    {c : Char} (hc : p c = false) (rest : List Char) :
    (run ++ c :: rest).takeWhile p = run := by
  rw [List.takeWhile_append_of_pos hrun, List.takeWhile_cons_of_neg (by simp [hc]),
    List.append_nil]

theorem dropWhile_append {p : Char → Bool} {run : List Char} (hrun : ∀ c ∈ run, p c = true)
    {c : Char} (hc : p c = false) (rest : List Char) :
    (run ++ c :: rest).dropWhile p = c :: rest := by
  rw [List.dropWhile_append_of_pos hrun, List.dropWhile_cons_of_neg (by simp [hc])]

/-! ## Names -/

/-- Whether a text is an attribute name: a letter or an underscore, then letters, digits and
underscores. -/
def isName (s : String) : Bool :=
  match s.toList with
  | c :: rest => isNameStart c && rest.all isNameChar
  | [] => false

theorem isName_iff {s : String} :
    isName s = true ↔
      ∃ c rest, s.toList = c :: rest ∧ isNameStart c = true ∧ ∀ d ∈ rest, isNameChar d = true := by
  rw [isName]
  cases h : s.toList with
  | nil => simp
  | cons c rest => simp

theorem toNat_of_isNameStart {c : Char} (h : isNameStart c = true) :
    0x41 ≤ c.toNat ∧ c.toNat ≤ 0x7a := by
  have hc : c.val.toNat = c.toNat := rfl
  rw [isNameStart] at h
  delta Char.isAlpha Char.isUpper Char.isLower at h
  simp only [Bool.or_eq_true, Bool.and_eq_true, decide_eq_true_eq, ge_iff_le,
    UInt32.le_iff_toNat_le] at h
  rcases h with (⟨hl, hu⟩ | ⟨hl, hu⟩) | rfl
  · simp only [hc] at hl hu
    exact ⟨hl, Nat.le_trans hu (by decide)⟩
  · simp only [hc] at hl hu
    exact ⟨Nat.le_trans (by decide) hl, hu⟩
  · decide

theorem isBlank_eq_false {c : Char} (hlow : 0x21 ≤ c.toNat) (hhigh : c.toNat ≤ 0x7e) :
    Text.isBlank c = false := by
  simp only [Text.isBlank, Bool.or_eq_false_iff, Bool.and_eq_false_iff, beq_eq_false_iff_ne,
    decide_eq_false_iff_not]
  omega

theorem isBlank_of_isNameStart {c : Char} (h : isNameStart c = true) : Text.isBlank c = false := by
  have hc := toNat_of_isNameStart h
  exact isBlank_eq_false (by omega) (by omega)

theorem ne_of_isNameStart {c d : Char} (h : isNameStart c = true) (hd : d.toNat < 0x41) :
    c ≠ d := by
  rintro rfl
  have hc := toNat_of_isNameStart h
  omega

theorem isSeparator_of_isNameStart {c : Char} (h : isNameStart c = true) :
    isSeparator c = false := by
  rw [isSeparator, isBlank_of_isNameStart h, Bool.false_or, Bool.or_eq_false_iff,
    decide_eq_false_iff_not, decide_eq_false_iff_not]
  exact ⟨ne_of_isNameStart h (by decide), ne_of_isNameStart h (by decide)⟩

/-! ## Values -/

/-- Whether a written value is read as another one: it begins where a value is looked for, and it is
read up to the semicolon after it. -/
structure ReadsAs (v w : Value) : Prop where
  starts : ∃ c rest, v.format.toList = c :: rest ∧ Text.isBlank c = false
  reads : ∀ name rest, readValue name (v.format.toList ++ ';' :: rest) = .ok (w, ';' :: rest)

/-! ### Texts -/

theorem format_str (s : String) : (Value.str s).format.toList = Quoted.encode s.toList := by
  simp [Value.format, Value.text]

theorem readsAs_str (s : String) :
    ReadsAs (.str s) (.str (String.ofList (Quoted.reread s.toList))) where
  starts := ⟨'"', _, (format_str s).trans (Quoted.encode_eq _), rfl⟩
  reads name rest := by
    have hdelimit := Quoted.delimit_inside s.toList (';' :: rest)
    have hdecode := Quoted.decode_encode s.toList
    rw [Quoted.encode_eq] at hdecode
    rw [format_str, Quoted.encode_eq, List.cons_append, List.append_assoc, readValue]
    simp only [if_true, List.cons_append, List.nil_append, hdelimit, hdecode]

/-! ### Words and truth values -/

theorem isDigit_of_isNameStart {c : Char} (h : isNameStart c = true) : Text.isDigit c = false := by
  have hc := toNat_of_isNameStart h
  have hzeros : ∀ start ∈ Text.digitZeros, start + 10 ≤ 0x41 ∨ 0x7b ≤ start := by decide
  rw [Text.isDigit, Text.digit?, Option.isSome_map, Option.isSome_eq_false_iff,
    Option.isNone_iff_eq_none, List.find?_eq_none]
  intro start hstart
  have hrange := hzeros start hstart
  simp only [Bool.and_eq_true, decide_eq_true_eq]
  omega

theorem readPlaces?_eq_none {c : Char} (h : isNameStart c = true) (rest : List Char) :
    readPlaces? (c :: rest) = none := by
  rw [readPlaces?, Numeral.splitDigits,
    List.takeWhile_cons_of_neg (by simp [isDigit_of_isNameStart h]),
    List.dropWhile_cons_of_neg (by simp [isDigit_of_isNameStart h])]
  simp [ne_of_isNameStart h (d := '.') (by decide)]

theorem readNumeral?_eq_none {c : Char} (h : isNameStart c = true) (rest : List Char) :
    readNumeral? (c :: rest) = none := by
  have hminus : Numeral.readMinus (c :: rest) = (false, c :: rest) := by
    rw [Numeral.readMinus.eq_def]
    simp [ne_of_isNameStart h (d := '-') (by decide)]
  simp [readNumeral?, hminus, readPlaces?_eq_none h]

theorem readValue_word {c : Char} {word : List Char} (hc : isNameStart c = true)
    (hword : ∀ d ∈ word, isWordChar d = true) (name : String) (rest : List Char) :
    readValue name (c :: word ++ ';' :: rest) =
      .ok (wordValue (String.ofList (c :: word)), ';' :: rest) := by
  have hread : readWord? (c :: (word ++ ';' :: rest)) = some (c :: word, ';' :: rest) := by
    rw [readWord?, if_pos hc, takeWhile_append hword (by decide),
      dropWhile_append hword (by decide)]
  rw [List.cons_append, readValue]
  simp only [if_neg (ne_of_isNameStart hc (d := '"') (by decide)),
    if_neg (ne_of_isNameStart hc (d := '<') (by decide)), readNumeral?_eq_none hc, hread]

theorem readsAs_of_word {v w : Value} {c : Char} {word : List Char}
    (hformat : v.format.toList = c :: word) (hc : isNameStart c = true)
    (hword : word.all isWordChar = true) (hvalue : wordValue (String.ofList (c :: word)) = w) :
    ReadsAs v w where
  starts := ⟨c, word, hformat, isBlank_of_isNameStart hc⟩
  reads name rest := by
    rw [hformat, ← hvalue]
    exact readValue_word hc (List.all_eq_true.1 hword) name rest

theorem readsAs_bool (b : Bool) : ReadsAs (.bool b) (.bool b) := by
  have htrue : "true".toList = ['t', 'r', 'u', 'e'] := rfl
  have hfalse : "false".toList = ['f', 'a', 'l', 's', 'e'] := rfl
  cases b with
  | true => exact readsAs_of_word htrue (by decide) (by decide) rfl
  | false => exact readsAs_of_word hfalse (by decide) (by decide) rfl

/-! ### Integers -/

theorem filterMap_digit? {digits : List Char} (hdigits : ∀ c ∈ digits, c.isDigit = true) :
    digits.filterMap Text.digit? = digits.map fun c => c.toNat - '0'.toNat := by
  induction digits with
  | nil => rfl
  | cons c digits ih =>
      rw [List.forall_mem_cons] at hdigits
      rw [List.filterMap_cons_some (Text.digit?_of_isDigit hdigits.1), ih hdigits.2, List.map_cons]

theorem ofDigits_map (digits : List Char) :
    Numeral.ofDigits (digits.map fun c => c.toNat - '0'.toNat) = Nat.ofDigitChars 10 digits 0 := by
  rw [Numeral.ofDigits, List.foldl_map, Nat.ofDigitChars_eq_foldl]

theorem readPlaces?_digits {digits : List Char} (hdigits : ∀ c ∈ digits, c.isDigit = true)
    (hne : digits ≠ []) (rest : List Char) :
    readPlaces? (digits ++ ';' :: rest) =
      some (digits.map (fun c => c.toNat - '0'.toNat), none, ';' :: rest) := by
  have hrun : ∀ c ∈ digits, Text.isDigit c = true :=
    fun c hc => Text.isDigit_of_isDigit (hdigits c hc)
  have hsplit : Numeral.splitDigits Text.isDigit (digits ++ ';' :: rest) =
      (digits.map (fun c => c.toNat - '0'.toNat), ';' :: rest) := by
    rw [Numeral.splitDigits, takeWhile_append hrun (by decide), dropWhile_append hrun (by decide),
      filterMap_digit? hdigits]
  obtain ⟨d, ds, rfl⟩ := List.exists_cons_of_ne_nil hne
  rw [readPlaces?, hsplit]
  simp

theorem toNat_of_isDigit {c : Char} (h : c.isDigit = true) : 0x30 ≤ c.toNat ∧ c.toNat ≤ 0x39 := by
  simp only [Char.isDigit, Bool.and_eq_true, decide_eq_true_eq, ge_iff_le,
    UInt32.le_iff_toNat_le] at h
  exact h

theorem isDigit_of_mem_toDigits {n : Nat} {c : Char} (h : c ∈ Nat.toDigits 10 n) :
    c.isDigit = true :=
  Nat.isDigit_of_mem_toDigits (by decide) (by decide) h

theorem toDigits_eq_cons (n : Nat) : ∃ d ds, Nat.toDigits 10 n = d :: ds ∧ d.isDigit = true := by
  obtain ⟨d, ds, hd⟩ := List.exists_cons_of_ne_nil (Nat.toDigits_ne_nil (n := n) (b := 10))
  exact ⟨d, ds, hd, isDigit_of_mem_toDigits (n := n) (by simp [hd])⟩

theorem decimal_eq_cons (n : Int) :
    ∃ d ds, (decimal n).toList = d :: ds ∧ (d = '-' ∨ d.isDigit = true) := by
  rw [decimal, String.toList_ofList]
  by_cases hn : n < 0
  · exact ⟨'-', _, by rw [if_pos hn]; rfl, .inl rfl⟩
  · obtain ⟨d, ds, hd, hdigit⟩ := toDigits_eq_cons n.natAbs
    exact ⟨d, ds, by rw [if_neg hn, List.nil_append, hd], .inr hdigit⟩

theorem readNumeral?_decimal (n : Int) (rest : List Char) :
    readNumeral? ((decimal n).toList ++ ';' :: rest) =
      some (⟨decide (n < 0), (Nat.toDigits 10 n.natAbs).map (fun c => c.toNat - '0'.toNat), none,
        none⟩, ';' :: rest) := by
  have hdigits : ∀ c ∈ Nat.toDigits 10 n.natAbs, c.isDigit = true :=
    fun c hc => isDigit_of_mem_toDigits hc
  have hplaces := readPlaces?_digits hdigits Nat.toDigits_ne_nil rest
  have hexponent : Numeral.readExponent Text.isDigit (';' :: rest) = (none, ';' :: rest) := by
    simp [Numeral.readExponent]
  rw [decimal, String.toList_ofList]
  by_cases hn : n < 0
  · rw [if_pos hn]
    simp [readNumeral?, Numeral.readMinus, hplaces, hexponent, hn]
  · have hminus : Numeral.readMinus (Nat.toDigits 10 n.natAbs ++ ';' :: rest) =
        (false, Nat.toDigits 10 n.natAbs ++ ';' :: rest) := by
      obtain ⟨d, ds, hd, hdigit⟩ := toDigits_eq_cons n.natAbs
      have hne : d ≠ '-' := by
        rintro rfl
        exact absurd hdigit (by decide)
      rw [hd, List.cons_append, Numeral.readMinus.eq_def]
      simp [hne]
    rw [if_neg hn, List.nil_append]
    simp [readNumeral?, hminus, hplaces, hexponent, hn]

theorem value_decimal {n : Int} (hn : (Nat.toDigits 10 n.natAbs).length ≤ maxIntegerDigits) :
    Numeral.value ⟨decide (n < 0), (Nat.toDigits 10 n.natAbs).map (fun c => c.toNat - '0'.toNat),
      none, none⟩ = .ok (.int n) := by
  have hsigned : Numeral.signed (decide (n < 0)) n.natAbs = n := by
    rw [Numeral.signed]
    split
    · next h =>
      have hlt := of_decide_eq_true h
      omega
    · next h =>
      have hge : ¬n < 0 := fun hlt => h (decide_eq_true hlt)
      omega
  rw [Numeral.value]
  simp only [List.length_map, if_neg (Nat.not_lt.2 hn), ofDigits_map, Nat.ofDigitChars_ten_toDigits,
    hsigned]

/-- A value that is written as a numeral is read as the value of the numeral. -/
theorem readsAs_of_numeral {v w : Value} {c : Char} {cs : List Char}
    (hformat : v.format.toList = c :: cs) (hstart : c = '-' ∨ c.isDigit = true)
    {numeral : Numeral} (hvalue : numeral.value = .ok w)
    (hread : ∀ rest, readNumeral? (v.format.toList ++ ';' :: rest) = some (numeral, ';' :: rest)) :
    ReadsAs v w := by
  have hrange : 0x2d ≤ c.toNat ∧ c.toNat ≤ 0x39 := by
    rcases hstart with rfl | hdigit
    · decide
    · have hdigit := toNat_of_isDigit hdigit
      omega
  have hblank : Text.isBlank c = false := isBlank_eq_false (by omega) (by omega)
  have hquote : c ≠ '"' := by
    rintro rfl
    exact absurd hrange (by decide)
  have hangle : c ≠ '<' := by
    rintro rfl
    exact absurd hrange (by decide)
  refine ⟨⟨c, cs, hformat, hblank⟩, fun name rest => ?_⟩
  have hread := hread rest
  rw [hformat, List.cons_append] at hread
  rw [hformat, List.cons_append, readValue]
  simp only [if_neg hquote, if_neg hangle, hread, hvalue]

theorem readsAs_int {n : Int} (hn : (Nat.toDigits 10 n.natAbs).length ≤ maxIntegerDigits) :
    ReadsAs (.int n) (.int n) := by
  obtain ⟨d, ds, hd, hstart⟩ := decimal_eq_cons n
  exact readsAs_of_numeral hd hstart (value_decimal hn) (readNumeral?_decimal n)

/-! ### Markup -/

/-- Whether a text closes brackets that are open before it: with its last character, and not
before. -/
def Closes (depth : Nat) (cs : List Char) : Prop :=
  ∀ n ≤ cs.length, 0 < n →
    (depth + (cs.take n).count '<' = (cs.take n).count '>' ↔ n = cs.length)

/-- Markup that begins with a bracket and closes it with its last character, and not before. -/
def ClosedMarkup (cs : List Char) : Prop :=
  cs.head? = some '<' ∧ Closes 0 cs

instance (depth : Nat) (cs : List Char) : Decidable (Closes depth cs) :=
  inferInstanceAs (Decidable (∀ n ≤ cs.length, 0 < n →
    (depth + (cs.take n).count '<' = (cs.take n).count '>' ↔ n = cs.length)))

instance (cs : List Char) : Decidable (ClosedMarkup cs) :=
  inferInstanceAs (Decidable (cs.head? = some '<' ∧ Closes 0 cs))

theorem Closes.ne_nil {depth deeper : Nat} {c : Char} {cs : List Char} (h : Closes depth (c :: cs))
    (hdeeper : 0 < deeper) (hcount : depth + [c].count '<' = deeper + [c].count '>') :
    cs ≠ [] := by
  rintro rfl
  have hlast := (h 1 (by simp) (by decide)).2 rfl
  rw [List.take_succ_cons, List.take_zero] at hlast
  omega

theorem Closes.tail {depth deeper : Nat} {c : Char} {cs : List Char} (h : Closes depth (c :: cs))
    (hcount : depth + [c].count '<' = deeper + [c].count '>') : Closes deeper cs := by
  intro n hlength hn
  have hnext := h (n + 1) (by simpa using hlength) (Nat.succ_pos n)
  rw [List.take_succ_cons, ← List.singleton_append, List.count_append, List.count_append,
    List.length_cons] at hnext
  omega

theorem splitMarkup_of_closes {depth : Nat} (hdepth : 0 < depth) {cs : List Char} (hne : cs ≠ [])
    (hcloses : Closes depth cs) (rest : List Char) :
    splitMarkup depth (cs ++ rest) = some (cs, rest) := by
  induction cs generalizing depth with
  | nil => exact absurd rfl hne
  | cons c cs ih =>
      have hnext : ∀ {deeper : Nat}, 0 < deeper →
          depth + [c].count '<' = deeper + [c].count '>' →
            splitMarkup deeper (cs ++ rest) = some (cs, rest) :=
        fun hdeeper hcount => ih hdeeper (hcloses.ne_nil hdeeper hcount) (hcloses.tail hcount)
      rw [List.cons_append, splitMarkup]
      by_cases hopen : c = '<'
      · rw [if_pos hopen, hnext (Nat.succ_pos depth) (by simp [hopen])]
        rfl
      by_cases hclose : c = '>'
      · rw [if_neg hopen, if_pos hclose]
        by_cases hone : depth = 1
        · have hcs : cs = [] := by
            have hlast := (hcloses 1 (by simp) (by decide)).1 (by simp [hone, hclose])
            simpa using hlast.symm
          rw [if_pos hone, hcs]
          rfl
        · rw [if_neg hone, hnext (show 0 < depth - 1 by omega) (by simp [hclose]; omega)]
          rfl
      · rw [if_neg hopen, if_neg hclose, hnext hdepth (by simp [hopen, hclose])]
        rfl

theorem splitMarkup_of_closedMarkup {cs : List Char} (h : ClosedMarkup cs) (rest : List Char) :
    splitMarkup 0 (cs ++ rest) = some (cs, rest) := by
  obtain ⟨hhead, hcloses⟩ := h
  obtain ⟨cs, rfl⟩ := List.head?_eq_some_iff.1 hhead
  have hcount : 0 + ['<'].count '<' = 1 + ['<'].count '>' := by decide
  have hne : cs ≠ [] := hcloses.ne_nil Nat.one_pos hcount
  have hread := splitMarkup_of_closes Nat.one_pos hne (hcloses.tail hcount) rest
  rw [List.cons_append, splitMarkup, if_pos rfl, hread]
  rfl

theorem readsAs_markup {text : String} (h : ClosedMarkup text.toList) :
    ReadsAs (.markup text) (.markup text) := by
  obtain ⟨cs, hcs⟩ := List.head?_eq_some_iff.1 h.1
  refine ⟨⟨'<', cs, hcs, rfl⟩, fun name rest => ?_⟩
  have hread := splitMarkup_of_closedMarkup h (';' :: rest)
  rw [hcs, List.cons_append] at hread
  show readValue name (text.toList ++ ';' :: rest) = _
  rw [hcs, List.cons_append, readValue]
  simp only [Char.reduceEq, if_true, if_false, hread, ← hcs, String.ofList_toList]

/-! ### Values of all kinds -/

/-- The values whose texts are read back: integers up to the size that is read, markup that closes,
and no doubles, lists and maps. -/
def IsReadable : Value → Prop
  | .null | .bool _ | .str _ => True
  | .int n => (Nat.toDigits 10 n.natAbs).length ≤ maxIntegerDigits
  | .markup text => ClosedMarkup text.toList
  | .float _ | .list _ | .map _ => False

instance : DecidablePred IsReadable
  | .null | .bool _ | .str _ => .isTrue trivial
  | .int n => inferInstanceAs (Decidable ((Nat.toDigits 10 n.natAbs).length ≤ maxIntegerDigits))
  | .markup text => inferInstanceAs (Decidable (ClosedMarkup text.toList))
  | .float _ | .list _ | .map _ => .isFalse id

def rereadValue : Value → Value
  | .str s => .str (String.ofList (Quoted.reread s.toList))
  | v => v

theorem readsAs_rereadValue {item : String × Value} (hset : isSet item = true)
    (hvalue : IsReadable item.2) : ReadsAs item.2 (rereadValue item.2) := by
  obtain ⟨name, v⟩ := item
  cases v with
  | null => cases hset
  | bool b => exact readsAs_bool b
  | int n => exact readsAs_int hvalue
  | str s => exact readsAs_str s
  | markup text => exact readsAs_markup hvalue
  | float x => exact hvalue.elim
  | list items => exact hvalue.elim
  | map entries => exact hvalue.elim

theorem rereadValue_eq_self_iff (v : Value) :
    rereadValue v = v ↔
      ∀ s, v = .str s → ∀ c ∈ ['n', 'r', '\n', '\r'], ¬ ['\\', c] <:+: s.toList := by
  cases v with
  | str s =>
    have hlist : rereadValue (.str s) = .str s ↔ Quoted.reread s.toList = s.toList := by
      rw [rereadValue, Value.str.injEq, ← String.toList_inj, String.toList_ofList]
    rw [hlist, Quoted.reread_eq_self_iff]
    simp
  | _ => simp [rereadValue]

end HighlightGraph.Attributes
