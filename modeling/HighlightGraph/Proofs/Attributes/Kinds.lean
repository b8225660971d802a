import HighlightGraph.Proofs.Attributes.Continuation
import HighlightGraph.Proofs.Json.Scalars
/-!
# Kinds of scalars read back

Texts, truth values, integers and finite doubles are read as values of the kind that was written.
The doubles that are no number are written as words: two of them are read as texts, and the one with
a sign is not read at all.
-/

namespace HighlightGraph

/-! ## Kinds -/

inductive ScalarKind where
  | text
  | truth
  | integer
  | double
deriving DecidableEq

def Value.scalarKind? : Value → Option ScalarKind
  | .str _ => some .text
  | .bool _ => some .truth
  | .int _ => some .integer
  | .float _ => some .double
  | _ => none

def Double.IsFinite : Double → Prop
  | .finite _ _ => True
  | _ => False

namespace Attributes

/-- The values of these kinds, integers up to the size that is read. -/
def IsScalar : Value → Prop
  | .str _ | .bool _ | .float _ => True
  | .int n => (Nat.toDigits 10 n.natAbs).length ≤ maxIntegerDigits
  | _ => False

/-! ## Doubles -/

theorem separated_semicolon (rest : List Char) : Separated (';' :: rest) := by
  rintro c ⟨⟩
  decide

theorem readPlaces?_append_of_parts {whole fraction exponent : List Char}
    (hwhole : Numeral.IsWhole whole) (hfraction : Numeral.IsFraction fraction)
    (hexponent : Numeral.IsExponent exponent) :
    readPlaces? (whole ++ (fraction ++ exponent)) =
      some (Numeral.digitValues whole, Numeral.fractionValues? fraction, exponent) := by
  obtain ⟨n, ns, hvalues⟩ := Numeral.digitValues_eq_cons hwhole.1
  have hexponentHead : ∀ c ∈ exponent.head?, Text.isDigit c = false := by
    rcases hexponent with rfl | ⟨sign, digits, -, -, rfl⟩
    · exact nofun
    · rintro c ⟨⟩
      decide
  rcases hfraction with rfl | ⟨digits, hdigits, rfl⟩
  · have hsplit := Numeral.splitDigits_append (fun _ => Text.isDigit_of_isDigit) hwhole.1.2
      hexponentHead
    rw [List.nil_append, readPlaces?, hsplit, hvalues]
    rcases hexponent with rfl | ⟨sign, digits, -, -, rfl⟩ <;> rfl
  · have hpoint : ∀ c ∈ ('.' :: (digits ++ exponent)).head?, Text.isDigit c = false := by
      rintro c ⟨⟩
      decide
    have hsplit := Numeral.splitDigits_append (fun _ => Text.isDigit_of_isDigit) hwhole.1.2 hpoint
    have hplaces := Numeral.splitDigits_append (fun _ => Text.isDigit_of_isDigit) hdigits.2
      hexponentHead
    rw [List.cons_append, readPlaces?, hsplit, hvalues]
    simp only [hplaces, Numeral.fractionValues?]

/-- Digits, a point with digits and an exponent are read as a double. -/
theorem readNumeral?_of_isDecimal (negative : Bool) {cs : List Char} (h : Numeral.IsDecimal cs) :
    ∃ numeral x, readNumeral? ((if negative then ['-'] else []) ++ cs) = some (numeral, []) ∧
      numeral.value = .ok (.float x) := by
  obtain ⟨whole, fraction, exponent, rfl, hwhole, hfraction, hexponent, hne⟩ := h.parts
  obtain ⟨x, hx⟩ := Numeral.exists_float_of_parts
    ⟨negative, Numeral.digitValues whole, Numeral.fractionValues? fraction,
      Numeral.exponentValue? exponent⟩
    (hne.imp (Numeral.isSome_fractionValues? hfraction) (Numeral.isSome_exponentValue? hexponent))
  have hminus : Numeral.readMinus ((if negative then ['-'] else []) ++
      (whole ++ (fraction ++ exponent))) = (negative, whole ++ (fraction ++ exponent)) := by
    obtain ⟨c, cs, rfl⟩ := List.exists_cons_of_ne_nil hwhole.1.1
    exact Json.readMinus_append negative (hwhole.1.2 c List.mem_cons_self) _
  have hread : Numeral.readExponent Text.isDigit exponent =
      (Numeral.exponentValue? exponent, []) := by
    have hend : ∀ c ∈ ([] : List Char).head?, Text.isDigit c = false ∧ c ≠ 'e' ∧ c ≠ 'E' := nofun
    simpa only [List.append_nil] using
      Numeral.readExponent_append (fun _ => Text.isDigit_of_isDigit) hexponent hend
  refine ⟨_, x, ?_, hx⟩
  simp only [readNumeral?, hminus, readPlaces?_append_of_parts hwhole hfraction hexponent,
    Option.map_some, hread]

theorem format_finite (negative : Bool) (m : Magnitude) :
    (Value.float (.finite negative m)).format.toList =
      (if negative then ['-'] else []) ++ m.text :=
  String.toList_ofList

theorem format_finite_eq_cons (negative : Bool) (m : Magnitude) :
    ∃ c rest, (Value.float (.finite negative m)).format.toList = c :: rest ∧
      (c = '-' ∨ c.isDigit = true) := by
  rw [format_finite]
  cases negative with
  | true => exact ⟨'-', _, rfl, .inl rfl⟩
  | false =>
    obtain ⟨whole, fraction, exponent, htext, hwhole, -⟩ := m.isDecimal_text.parts
    obtain ⟨c, cs, rfl⟩ := List.exists_cons_of_ne_nil hwhole.1.1
    exact ⟨c, _, htext, .inr (hwhole.1.2 c List.mem_cons_self)⟩

theorem readsAs_finite (negative : Bool) (m : Magnitude) :
    ∃ x, ReadsAs (.float (.finite negative m)) (.float x) := by
  obtain ⟨numeral, x, hread, hvalue⟩ := readNumeral?_of_isDecimal negative m.isDecimal_text
  obtain ⟨c, cs, hcs, hstart⟩ := format_finite_eq_cons negative m
  refine ⟨x, readsAs_of_numeral hcs hstart hvalue fun rest => ?_⟩
  rw [readNumeral?_append (separated_semicolon rest), format_finite, hread]
  rfl

/-! ## Doubles that are no number -/

theorem readsAs_nan (mark : Nat) : ReadsAs (.float (.nan mark)) (.str "NaN") := by
  have hformat : "NaN".toList = ['N', 'a', 'N'] := rfl
  exact readsAs_of_word hformat (by decide) (by decide) rfl

theorem readsAs_infinity : ReadsAs (.float (.infinite false)) (.str "Infinity") := by
  have hformat : "Infinity".toList = ['I', 'n', 'f', 'i', 'n', 'i', 't', 'y'] := rfl
  exact readsAs_of_word hformat (by decide) (by decide) rfl

/-- A sign before a letter begins no value. -/
theorem readValue_minus {c : Char} (hc : isNameStart c = true) (name : String)
    (rest : List Char) :
    readValue name ('-' :: c :: rest) = .error (.lack (.value name) ('-' :: c :: rest)) := by
  have hnumeral : readNumeral? ('-' :: c :: rest) = none := by
    rw [readNumeral?, Numeral.readMinus]
    simp only [readPlaces?_eq_none hc, Option.map_none]
  have hword : readWord? ('-' :: c :: rest) = none := by
    rw [readWord?, if_neg (by decide)]
  rw [readValue, if_neg (by decide), if_neg (by decide), hnumeral, hword]

/-! ## Items that are refused -/

def ItemRefused (item : String × Value) : Prop :=
  isName item.1 = true ∧ ∀ rest, ∃ refusal,
    readItem ((formatItem item).toList ++ rest) = .error refusal

theorem itemRefused_minus_infinity {name : String} (h : isName name = true) :
    ItemRefused (name, .float (.infinite true)) := by
  refine ⟨h, fun rest => ?_⟩
  have hformat : (Value.float (.infinite true)).format.toList = '-' :: 'I' :: "nfinity".toList :=
    rfl
  have hvalue := readValue_minus (c := 'I') (by decide) name ("nfinity".toList ++ ';' :: rest)
  have hitem : (formatItem (name, .float (.infinite true))).toList ++ rest =
      name.toList ++ '=' :: '-' :: 'I' :: ("nfinity".toList ++ ';' :: rest) := by
    simp only [toList_formatItem, hformat, List.append_assoc, List.cons_append, List.nil_append]
  rw [hitem, readItem, readName?_equals h (by decide)]
  simp only [hvalue, Except.map]
  exact ⟨_, rfl⟩

theorem readItems_eq_error {cs : List Char} {refusal : Refusal} (hne : cs ≠ [])
    (h : readItem cs = .error refusal) : readItems cs = .error refusal := by
  rw [readItems, if_neg (by simpa using hne)]
  split
  · next other hother =>
    rw [h] at hother
    cases hother
    rfl
  · next item rest hother =>
    rw [h] at hother
    cases hother

/-- Items are refused together if one of them is. -/
theorem readItems_refused {entries : List (String × Value)}
    (hentries : ∀ item ∈ entries, ItemRefused item ∨ ∃ read, ItemReadsAs item read)
    (h : ∃ item ∈ entries, ItemRefused item) :
    ∃ refusal, readItems (skipSeparators
      ([' '].intercalate (entries.map fun item => (formatItem item).toList))) =
        .error refusal := by
  induction entries with
  | nil =>
    obtain ⟨item, hmem, -⟩ := h
    cases hmem
  | cons first entries ih =>
    obtain ⟨after, hafter, hskip⟩ := intercalate_cons_append (formatItem first).toList
      (entries.map fun item => (formatItem item).toList) []
    rw [List.append_nil] at hafter hskip
    have hname : isName first.1 = true := by
      rcases hentries first List.mem_cons_self with hrefused | ⟨read, hreads⟩
      · exact hrefused.1
      · exact hreads.1
    rw [List.map_cons, hafter, skipSeparators_formatItem hname]
    by_cases hfirst : ItemRefused first
    · obtain ⟨refusal, hrefusal⟩ := hfirst.2 after
      refine ⟨refusal, readItems_eq_error ?_ hrefusal⟩
      rw [toList_formatItem]
      simp
    · rw [List.forall_mem_cons] at hentries
      obtain ⟨read, hreads⟩ := hentries.1.resolve_left hfirst
      obtain ⟨item, hmem, hrefused⟩ := h
      have hrest : item ∈ entries := by
        rcases List.mem_cons.1 hmem with rfl | hrest
        · exact absurd hrefused hfirst
        · exact hrest
      obtain ⟨refusal, hrefusal⟩ := ih hentries.2 ⟨item, hrest, hrefused⟩
      refine ⟨refusal, ?_⟩
      rw [readItems_cons (readItem_formatItem hreads after), hskip, hrefusal]
      rfl

theorem parse_refused {attributes : Attributes}
    (hentries : ∀ item ∈ attributes.entries.filter isSet,
      ItemRefused item ∨ ∃ read, ItemReadsAs item read)
    (h : ∃ item ∈ attributes.entries.filter isSet, ItemRefused item) :
    ∃ cause, parse attributes.text = .error cause := by
  have hnames : ∀ item ∈ attributes.entries.filter isSet, isName item.1 = true := by
    intro item hitem
    rcases hentries item hitem with hrefused | ⟨read, hreads⟩
    · exact hrefused.1
    · exact hreads.1
  obtain ⟨refusal, hrefusal⟩ := readItems_refused hentries h
  rw [← toList_text] at hrefusal
  rw [parse]
  simp only [unbracket_trim_text hnames, hrefusal]
  exact ⟨_, rfl⟩

/-! ## Attributes -/

/-- Whether the text of attributes is read, with their names in their order and each value as one
of the same kind. -/
def KeepsKinds (attributes : Attributes) : Prop :=
  ∃ read : Attributes, parse attributes.text = .ok read ∧ read.keys = attributes.keys ∧
    ∀ name v, attributes.get? name = some v →
      ∃ w, read.get? name = some w ∧ w.scalarKind? = v.scalarKind?

def readKind? : Value → Option ScalarKind
  | .float (.finite _ _) => some .double
  | .float _ => some .text
  | v => v.scalarKind?

theorem readKind?_eq_scalarKind?_iff (v : Value) :
    readKind? v = v.scalarKind? ↔ ∀ x, v = .float x → x.IsFinite := by
  cases v with
  | float x => cases x <;> simp [readKind?, Value.scalarKind?, Double.IsFinite]
  | _ => simp [readKind?]

theorem exists_readsAs {v : Value} (hv : IsScalar v) (hminus : v ≠ .float (.infinite true)) :
    ∃ w, ReadsAs v w ∧ w.scalarKind? = readKind? v := by
  cases v with
  | str s => exact ⟨_, readsAs_str s, rfl⟩
  | bool b => exact ⟨_, readsAs_bool b, rfl⟩
  | int n => exact ⟨_, readsAs_int hv, rfl⟩
  | float x =>
    cases x with
    | finite negative m =>
      obtain ⟨x, hx⟩ := readsAs_finite negative m
      exact ⟨_, hx, rfl⟩
    | infinite negative =>
      cases negative with
      | true => exact absurd rfl hminus
      | false => exact ⟨_, readsAs_infinity, rfl⟩
    | nan mark => exact ⟨_, readsAs_nan mark, rfl⟩
  | null | markup text | list items | map entries => exact hv.elim

section Scalars

variable {attributes : Attributes}
  (hnames : ∀ item ∈ attributes.entries, isName item.1 = true)
  (hvalues : ∀ item ∈ attributes.entries, IsScalar item.2)

include hvalues in
theorem filter_isSet_of_scalars : attributes.entries.filter isSet = attributes.entries := by
  apply List.filter_eq_self.2
  rintro ⟨name, v⟩ hitem
  cases v with
  | null => exact (hvalues _ hitem).elim
  | _ => rfl

include hnames hvalues

theorem exists_read_of_scalars
    (hminus : ∀ name, attributes.get? name ≠ some (.float (.infinite true))) :
    ∃ read : Attributes, parse attributes.text = .ok read ∧ read.keys = attributes.keys ∧
      ∀ name v, attributes.get? name = some v →
        ∃ w, read.get? name = some w ∧ w.scalarKind? = readKind? v := by
  have hitems : ∀ item ∈ attributes.entries, ∃ read : String × Value,
      ItemReadsAs item read ∧ read.2.scalarKind? = readKind? item.2 := by
    rintro ⟨name, v⟩ hitem
    have hne : v ≠ .float (.infinite true) := by
      rintro rfl
      exact hminus name (Table.mem_entries_iff.1 hitem)
    obtain ⟨w, hreads, hkind⟩ := exists_readsAs (hvalues _ hitem) hne
    exact ⟨(name, w), ⟨hnames _ hitem, rfl, hreads⟩, hkind⟩
  obtain ⟨reads, hreads⟩ := exists_forall₂ hitems
  have hkeys : reads.map Prod.fst = attributes.keys :=
    (map_eq_map_of_forall₂ (fun _ _ hitem => hitem.1.2.1.symm) hreads).symm
  have hentries : (Table.ofList reads).entries = reads :=
    Table.entries_ofList (hkeys ▸ attributes.nodup_keys)
  refine ⟨Table.ofList reads, parse_text ?_, ?_, fun name v hname => ?_⟩
  · rw [filter_isSet_of_scalars hvalues]
    exact hreads.imp fun _ _ hitem => hitem.1
  · rw [Table.keys, hentries, hkeys]
  · obtain ⟨⟨other, w⟩, hmem, ⟨-, hsame, -⟩, hkind⟩ :=
      exists_mem_of_forall₂ hreads _ (Table.mem_entries_iff.2 hname)
    cases hsame
    refine ⟨w, Table.mem_entries_iff.1 ?_, hkind⟩
    rwa [hentries]

theorem parse_refused_of_minus_infinity {name : String}
    (hname : attributes.get? name = some (.float (.infinite true))) :
    ∃ cause, parse attributes.text = .error cause := by
  apply parse_refused
  · rw [filter_isSet_of_scalars hvalues]
    rintro ⟨other, v⟩ hitem
    by_cases hminus : v = .float (.infinite true)
    · subst hminus
      exact .inl (itemRefused_minus_infinity (hnames _ hitem))
    · obtain ⟨w, hreads, -⟩ := exists_readsAs (hvalues _ hitem) hminus
      exact .inr ⟨(other, w), hnames _ hitem, rfl, hreads⟩
  · rw [filter_isSet_of_scalars hvalues]
    have hmem := Table.mem_entries_iff.2 hname
    exact ⟨_, hmem, itemRefused_minus_infinity (hnames _ hmem)⟩

/-- The text of scalars is read, and every value keeps its kind, if and only if all doubles among
them are finite. Of the others, the infinity with a sign is not read, so that the whole text is
refused, and the rest are read as texts. -/
theorem keepsKinds_iff :
    (KeepsKinds attributes ↔
        ∀ name x, attributes.get? name = some (.float x) → x.IsFinite) ∧
      ((∃ read, parse attributes.text = .ok read) ↔
        ∀ name, attributes.get? name ≠ some (.float (.infinite true))) ∧
      ∀ read, parse attributes.text = .ok read → read.keys = attributes.keys ∧
        ∀ name v, attributes.get? name = some v →
          ∃ w, read.get? name = some w ∧ w.scalarKind? = readKind? v := by
  have hminus : ∀ read, parse attributes.text = .ok read →
      ∀ name, attributes.get? name ≠ some (.float (.infinite true)) := by
    intro read hread name hname
    obtain ⟨cause, hcause⟩ := parse_refused_of_minus_infinity hnames hvalues hname
    cases hread.symm.trans hcause
  have hkinds : ∀ read, parse attributes.text = .ok read → read.keys = attributes.keys ∧
      ∀ name v, attributes.get? name = some v →
        ∃ w, read.get? name = some w ∧ w.scalarKind? = readKind? v := by
    intro read hread
    obtain ⟨other, hother, hrest⟩ :=
      exists_read_of_scalars hnames hvalues (hminus read hread)
    cases hread.symm.trans hother
    exact hrest
  refine ⟨⟨?_, ?_⟩, ⟨?_, ?_⟩, hkinds⟩
  · rintro ⟨read, hread, -, hkept⟩ name x hname
    obtain ⟨w, hw, hkind⟩ := hkept name _ hname
    obtain ⟨other, hother, hreadKind⟩ := (hkinds read hread).2 name _ hname
    cases hw.symm.trans hother
    exact (readKind?_eq_scalarKind?_iff _).1 (hreadKind.symm.trans hkind) x rfl
  · intro hfinite
    obtain ⟨read, hread, hkeys, hkept⟩ :=
      exists_read_of_scalars hnames hvalues fun name hname => (hfinite name _ hname).elim
    refine ⟨read, hread, hkeys, fun name v hname => ?_⟩
    obtain ⟨w, hw, hkind⟩ := hkept name v hname
    refine ⟨w, hw, hkind.trans ((readKind?_eq_scalarKind?_iff v).2 ?_)⟩
    rintro x rfl
    exact hfinite name x hname
  · rintro ⟨read, hread⟩
    exact hminus read hread
  · intro hnone
    obtain ⟨read, hread, -⟩ := exists_read_of_scalars hnames hvalues hnone
    exact ⟨read, hread⟩

end Scalars

/-- Texts that look like other kinds stay texts. -/
theorem keepsKinds_of_lookalikes :
    KeepsKinds (.ofList [("penwidth", .float (.finite true .zero)), ("label", .str "1.5"),
      ("bold", .bool true), ("width", .int (-12)), ("note", .str "-Infinity")]) := by
  let entries : List (String × Value) := [("penwidth", .float (.finite true .zero)),
    ("label", .str "1.5"), ("bold", .bool true), ("width", .int (-12)), ("note", .str "-Infinity")]
  have hentries : (Table.ofList entries).entries = entries := Table.entries_ofList (by decide)
  have hdigits : (Nat.toDigits 10 12).length ≤ maxIntegerDigits := by decide
  refine (keepsKinds_iff (by decide) ?_).1.2 fun name x hname => ?_
  · simp only [hentries, entries, List.forall_mem_cons]
    exact ⟨trivial, trivial, trivial, hdigits, trivial, nofun⟩
  · have hmem := Table.mem_entries_iff.2 hname
    rw [hentries] at hmem
    simp only [entries, List.mem_cons, Prod.mk.injEq, Value.float.injEq, reduceCtorEq, and_false,
      or_false, List.not_mem_nil] at hmem
    rw [hmem.2]
    trivial

theorem infinity_with_sign_is_refused :
    ¬ ∀ attributes : Attributes, (∀ item ∈ attributes.entries, isName item.1 = true) →
      (∀ item ∈ attributes.entries, IsScalar item.2) → KeepsKinds attributes := by
  intro hclaim
  let attributes : Attributes := .ofList [("penwidth", .float (.infinite true))]
  have hnames : ∀ item ∈ attributes.entries, isName item.1 = true := by decide
  have hvalues : ∀ item ∈ attributes.entries, IsScalar item.2 :=
    List.forall_mem_singleton.2 trivial
  obtain ⟨read, hread, -⟩ := hclaim attributes hnames hvalues
  have hname : attributes.get? "penwidth" = some (.float (.infinite true)) := rfl
  obtain ⟨cause, hcause⟩ := parse_refused_of_minus_infinity hnames hvalues hname
  cases hread.symm.trans hcause

end Attributes

end HighlightGraph
