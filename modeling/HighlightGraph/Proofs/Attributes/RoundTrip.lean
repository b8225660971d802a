import HighlightGraph.Proofs.Attributes.Values
import HighlightGraph.Proofs.Result
import HighlightGraph.Proofs.Table
/-!
# Attributes written and read back

A text of attributes is read item by item as it was written, with or without brackets around it, so
that reading differs from the attributes only where the reading of a single value does.
-/

namespace HighlightGraph.Attributes

/-! ## Items -/

def ItemReadsAs (item read : String × Value) : Prop :=
  isName item.1 = true ∧ read.1 = item.1 ∧ ReadsAs item.2 read.2

theorem toList_formatItem (item : String × Value) :
    (formatItem item).toList = item.1.toList ++ '=' :: (item.2.format.toList ++ [';']) := by
  simp [formatItem]

theorem skipBlanks_cons {c : Char} (hc : Text.isBlank c = false) (rest : List Char) :
    skipBlanks (c :: rest) = c :: rest :=
  List.dropWhile_cons_of_neg (by simp [hc])

theorem skipSeparators_cons {c : Char} (hc : isSeparator c = false) (rest : List Char) :
    skipSeparators (c :: rest) = c :: rest :=
  List.dropWhile_cons_of_neg (by simp [hc])

theorem readName?_equals {name : String} (hname : isName name = true) {d : Char}
    (hd : Text.isBlank d = false) (rest : List Char) :
    readName? (name.toList ++ '=' :: d :: rest) = some (name, d :: rest) := by
  obtain ⟨c, cs, hcs, hc, hcont⟩ := isName_iff.1 hname
  have hequals : isNameChar '=' = false := by decide
  rw [hcs, List.cons_append, readName?, skipBlanks_cons (isBlank_of_isNameStart hc)]
  simp only [hc, if_true, takeWhile_append hcont hequals, dropWhile_append hcont hequals,
    skipBlanks_cons (show Text.isBlank '=' = false by decide), skipBlanks_cons hd, ← hcs,
    String.ofList_toList]

theorem readItem_formatItem {item read : String × Value} (h : ItemReadsAs item read)
    (rest : List Char) :
    readItem ((formatItem item).toList ++ rest) = .ok (read, skipSeparators rest) := by
  obtain ⟨hname, hsame, ⟨d, value, hd, hblank⟩, hreads⟩ := h
  have hitem : (formatItem item).toList ++ rest =
      item.1.toList ++ '=' :: d :: (value ++ ';' :: rest) := by
    simp [toList_formatItem, hd]
  have hvalue := hreads item.1 rest
  rw [hd, List.cons_append] at hvalue
  have hsemicolon : skipSeparators (';' :: rest) = skipSeparators rest :=
    List.dropWhile_cons_of_pos (by decide)
  have hread : read = (item.1, read.2) := by rw [← hsame]
  rw [hitem, readItem, readName?_equals hname hblank, hread]
  simp only [hvalue, Except.map, hsemicolon]

/-! ## Lists of items -/

theorem skipSeparators_formatItem {item : String × Value} (hname : isName item.1 = true)
    (rest : List Char) :
    skipSeparators ((formatItem item).toList ++ rest) = (formatItem item).toList ++ rest := by
  obtain ⟨c, cs, hcs, hc, -⟩ := isName_iff.1 hname
  rw [toList_formatItem, hcs, List.cons_append, List.cons_append]
  exact skipSeparators_cons (isSeparator_of_isNameStart hc) _

theorem readItems_cons {cs rest : List Char} {item : String × Value}
    (h : readItem cs = .ok (item, rest)) : readItems cs = (readItems rest).map (item :: ·) := by
  have hne : cs.isEmpty = false := by
    cases cs with
    | nil => cases h
    | cons => rfl
  rw [readItems, hne, if_neg (by simp)]
  split
  · next refusal hrefusal =>
    rw [h] at hrefusal
    cases hrefusal
  · next other after hother =>
    rw [h] at hother
    cases hother
    rfl

theorem intercalate_cons_append (item : List Char) (items : List (List Char)) (rest : List Char) :
    ∃ after, [' '].intercalate (item :: items) ++ rest = item ++ after ∧
      skipSeparators after = skipSeparators ([' '].intercalate items ++ rest) := by
  cases items with
  | nil => exact ⟨rest, by rw [List.intercalate_singleton], rfl⟩
  | cons next items =>
      refine ⟨' ' :: ([' '].intercalate (next :: items) ++ rest), ?_, ?_⟩
      · rw [List.intercalate_cons_cons, List.append_assoc, List.append_assoc,
          List.singleton_append]
      · exact List.dropWhile_cons_of_pos (by decide)

/-- Items are read in the order in which they stand, whatever separators follow the last one. -/
theorem readItems_intercalate {entries read : List (String × Value)}
    (h : List.Forall₂ ItemReadsAs entries read) {rest : List Char}
    (hrest : skipSeparators rest = []) :
    readItems (skipSeparators
      ([' '].intercalate (entries.map fun item => (formatItem item).toList) ++ rest)) =
        .ok read := by
  induction h with
  | nil =>
    rw [List.map_nil, List.intercalate_nil, List.nil_append, hrest, readItems]
    rfl
  | @cons item read entries reads hitem hitems ih =>
    obtain ⟨after, hafter, hskip⟩ := intercalate_cons_append (formatItem item).toList
      (entries.map fun item => (formatItem item).toList) rest
    rw [List.map_cons, hafter, skipSeparators_formatItem hitem.1,
      readItems_cons (readItem_formatItem hitem after), hskip, ih]
    rfl

/-! ## Texts -/

theorem toList_text (attributes : Attributes) :
    attributes.text.toList =
      [' '].intercalate ((attributes.entries.filter isSet).map fun item =>
        (formatItem item).toList) := by
  rw [text, items, String.toList_intercalate, List.map_map]
  rfl

theorem intercalate_starts {entries : List (String × Value)}
    (hnames : ∀ item ∈ entries, isName item.1 = true) (hne : entries ≠ []) :
    ∃ c cs, [' '].intercalate (entries.map fun item => (formatItem item).toList) = c :: cs ∧
      isNameStart c = true := by
  cases entries with
  | nil => exact absurd rfl hne
  | cons item entries =>
      obtain ⟨after, hafter, -⟩ := intercalate_cons_append (formatItem item).toList
        (entries.map fun item => (formatItem item).toList) []
      obtain ⟨c, cs, hcs, hc, -⟩ := isName_iff.1 (hnames item List.mem_cons_self)
      rw [List.append_nil] at hafter
      refine ⟨c, cs ++ '=' :: (item.2.format.toList ++ [';']) ++ after, ?_, hc⟩
      rw [List.map_cons, hafter, toList_formatItem, hcs, List.cons_append, List.cons_append]

theorem intercalate_ends {items : List (List Char)} (hne : items ≠ [])
    (hitems : ∀ item ∈ items, ∃ front, item = front ++ [';']) :
    ∃ front, [' '].intercalate items = front ++ [';'] := by
  induction items with
  | nil => exact absurd rfl hne
  | cons item items ih =>
      rw [List.forall_mem_cons] at hitems
      cases items with
      | nil =>
          obtain ⟨front, hfront⟩ := hitems.1
          exact ⟨front, by rw [List.intercalate_singleton, hfront]⟩
      | cons next items =>
          obtain ⟨front, hfront⟩ := ih (by simp) hitems.2
          refine ⟨item ++ [' '] ++ front, ?_⟩
          rw [List.intercalate_cons_cons, hfront, List.append_assoc _ front]

theorem trimEnd_concat {d : Char} (hd : Text.isBlank d = false) (front : List Char) :
    Text.trimEnd (front ++ [d]) = front ++ [d] := by
  rw [Text.trimEnd, List.reverse_append, List.reverse_singleton, List.singleton_append,
    List.dropWhile_cons_of_neg (by simp [hd]), List.reverse_cons, List.reverse_reverse]

theorem unbracket_trim_brackets (cs : List Char) :
    unbracket (Text.trim ('[' :: (cs ++ [']']))) = cs := by
  rw [Text.trim, List.dropWhile_cons_of_neg (by decide), ← List.cons_append,
    trimEnd_concat (by decide), List.cons_append, unbracket, if_pos List.getLast?_concat,
    List.dropLast_concat]

theorem unbracket_trim_text {attributes : Attributes}
    (hnames : ∀ item ∈ attributes.entries.filter isSet, isName item.1 = true) :
    unbracket (Text.trim attributes.text.toList) = attributes.text.toList := by
  rw [toList_text]
  by_cases hne : attributes.entries.filter isSet = []
  · rw [hne]
    rfl
  · obtain ⟨c, cs, hcs, hc⟩ := intercalate_starts hnames hne
    obtain ⟨front, hfront⟩ : ∃ front, [' '].intercalate
        ((attributes.entries.filter isSet).map fun item => (formatItem item).toList) =
          front ++ [';'] := by
      refine intercalate_ends (by simpa using hne) fun chars hchars => ?_
      obtain ⟨item, -, rfl⟩ := List.mem_map.1 hchars
      exact ⟨item.1.toList ++ '=' :: item.2.format.toList, by simp [toList_formatItem]⟩
    have hbracket : c ≠ '[' := by
      rintro rfl
      exact absurd hc (by decide)
    rw [Text.trim, hcs, List.dropWhile_cons_of_neg (by simp [isBlank_of_isNameStart hc]), ← hcs,
      hfront, trimEnd_concat (by decide), ← hfront, hcs, unbracket.eq_def]
    simp [hbracket]

theorem parse_text {attributes : Attributes} {read : List (String × Value)}
    (h : List.Forall₂ ItemReadsAs (attributes.entries.filter isSet) read) :
    parse attributes.text = .ok (Table.ofList read) := by
  have hread := readItems_intercalate h (show skipSeparators [] = [] from rfl)
  rw [List.append_nil, ← toList_text] at hread
  have hnames := forall_left_of_forall₂ h fun _ _ hitem => hitem.1
  rw [parse]
  simp only [unbracket_trim_text hnames, hread]

theorem parse_listText {attributes : Attributes} {read : List (String × Value)}
    (h : List.Forall₂ ItemReadsAs (attributes.entries.filter isSet) read) :
    parse attributes.listText = .ok (Table.ofList read) := by
  rw [listText]
  by_cases hempty : attributes.text = ""
  · rw [if_pos hempty, ← hempty, parse_text h]
  · have hbody : unbracket (Text.trim (" [ " ++ attributes.text ++ " ]").toList) =
        ' ' :: (attributes.text.toList ++ [' ']) := by
      have htext : (" [ " ++ attributes.text ++ " ]").toList =
          ' ' :: '[' :: (' ' :: (attributes.text.toList ++ [' ']) ++ [']']) := by
        simp
      rw [htext]
      exact unbracket_trim_brackets (' ' :: (attributes.text.toList ++ [' ']))
    have hread := readItems_intercalate h (show skipSeparators [' '] = [] by decide)
    rw [← toList_text] at hread
    have hskip : skipSeparators (' ' :: (attributes.text.toList ++ [' '])) =
        skipSeparators (attributes.text.toList ++ [' ']) :=
      List.dropWhile_cons_of_pos (by decide)
    rw [if_neg hempty, parse]
    simp only [hbody, hskip, hread]

/-! ## Legible attributes -/

/-- Whether every attribute has a name that is read as one and a value whose text is read back. -/
def Legible (attributes : Attributes) : Prop :=
  ∀ item ∈ attributes.entries, isName item.1 = true ∧ IsReadable item.2

instance (attributes : Attributes) : Decidable (Legible attributes) :=
  inferInstanceAs (Decidable
    (∀ item ∈ attributes.entries, isName item.1 = true ∧ IsReadable item.2))

def reread? : Value → Option Value
  | .null => none
  | v => some (rereadValue v)

def reread (attributes : Attributes) : Attributes := attributes.filterMapValues reread?

theorem reread?_eq (name : String) (v : Value) :
    reread? v = if isSet (name, v) then some (rereadValue v) else none := by
  cases v <;> rfl

theorem entries_reread (attributes : Attributes) :
    attributes.reread.entries =
      (attributes.entries.filter isSet).map fun item => (item.1, rereadValue item.2) := by
  show attributes.entries.filterMap _ = _
  rw [← List.filterMap_eq_filter, List.map_filterMap]
  apply List.filterMap_congr
  intro item _
  rw [reread?_eq item.1, Option.guard]
  split <;> rfl

theorem Legible.forall₂_reread {attributes : Attributes} (h : attributes.Legible) :
    List.Forall₂ ItemReadsAs (attributes.entries.filter isSet) attributes.reread.entries := by
  rw [entries_reread, List.forall₂_map_right_iff, List.forall₂_same]
  intro item hitem
  obtain ⟨hmem, hset⟩ := List.mem_filter.1 hitem
  exact ⟨(h item hmem).1, rfl, readsAs_rereadValue hset (h item hmem).2⟩

theorem Legible.parse_text {attributes : Attributes} (h : attributes.Legible) :
    parse attributes.text = .ok attributes.reread := by
  rw [Attributes.parse_text h.forall₂_reread, Table.ofList_entries]

theorem Legible.parse_listText {attributes : Attributes} (h : attributes.Legible) :
    parse attributes.listText = .ok attributes.reread := by
  rw [Attributes.parse_listText h.forall₂_reread, Table.ofList_entries]

theorem legible_iff {attributes : Attributes} :
    Legible attributes ↔
      ∀ name v, attributes.get? name = some v → isName name = true ∧ IsReadable v := by
  simp only [Legible, Prod.forall, Table.mem_entries_iff]

theorem Legible.insert {attributes : Attributes} (h : Legible attributes) {name : String}
    (hname : isName name = true) {v : Value} (hv : IsReadable v) :
    Legible (attributes.insert name v) := by
  rw [legible_iff] at h ⊢
  intro other w hw
  rw [Table.get?_insert] at hw
  split at hw
  · next heq =>
    cases hw
    exact ⟨heq ▸ hname, hv⟩
  · exact h other w hw

theorem Legible.filterKeys {attributes : Attributes} (h : Legible attributes) (p : String → Bool) :
    Legible (attributes.filterKeys p) :=
  fun item hitem => h item (List.mem_of_mem_filter hitem)

theorem get?_reread (attributes : Attributes) (name : String) :
    attributes.reread.get? name = (attributes.get? name).bind reread? :=
  attributes.get?_filterMapValues reread? name

theorem contains_reread_iff {attributes : Attributes} {name : String} :
    attributes.reread.contains name = true ↔ ∃ v, attributes.get? name = some v ∧ v ≠ .null := by
  have hwritten : ∀ v : Value, (reread? v).isSome = true ↔ v ≠ .null := by
    intro v
    cases v <;> simp [reread?]
  rw [Table.contains, get?_reread, Option.isSome_bind, Option.any_eq_true]
  simp only [hwritten]

theorem get?_reread_eq_self_iff {attributes : Attributes} {name : String} {v : Value}
    (hname : attributes.get? name = some v) (hv : v ≠ .null) :
    attributes.reread.get? name = some v ↔
      ∀ s, v = .str s → ∀ c ∈ ['n', 'r', '\n', '\r'], ¬ ['\\', c] <:+: s.toList := by
  have hreread : reread? v = some (rereadValue v) := by
    cases v <;> first | rfl | exact absurd rfl hv
  rw [get?_reread, hname, Option.bind_some, hreread, Option.some.injEq, rereadValue_eq_self_iff]

/-! ## Attributes -/

/-- Attributes are read back from their text, and from their text in brackets, as the same table.
It is the table of the set attributes themselves if and only if no text among them has a backslash
right before a line end or before a letter that is taken for one. -/
theorem reads_back_iff {attributes : Attributes}
    (hnames : ∀ item ∈ attributes.entries, isName item.1 = true)
    (hvalues : ∀ item ∈ attributes.entries, IsReadable item.2) :
    ∃ read : Attributes, parse attributes.text = .ok read ∧ parse attributes.listText = .ok read ∧
      (read.entries = attributes.entries.filter isSet ↔
        ∀ name s, (name, .str s) ∈ attributes.entries →
          ∀ c ∈ ['n', 'r', '\n', '\r'], ¬ ['\\', c] <:+: s.toList) := by
  let given := attributes.entries.filter isSet
  let read := given.map fun item => (item.1, rereadValue item.2)
  have hreads : List.Forall₂ ItemReadsAs given read := by
    rw [List.forall₂_map_right_iff, List.forall₂_same]
    intro item hitem
    obtain ⟨hmem, hset⟩ := List.mem_filter.1 hitem
    exact ⟨hnames item hmem, rfl, readsAs_rereadValue hset (hvalues item hmem)⟩
  have hnodup : (read.map Prod.fst).Nodup := by
    have hkeys : read.map Prod.fst = given.map Prod.fst := List.map_map
    rw [hkeys]
    exact attributes.nodup_keys.sublist (List.filter_sublist.map Prod.fst)
  refine ⟨Table.ofList read, parse_text hreads, parse_listText hreads, ?_⟩
  calc (Table.ofList read).entries = given
      ↔ read = given.map id := by rw [Table.entries_ofList hnodup, List.map_id]
    _ ↔ ∀ item ∈ given, rereadValue item.2 = item.2 := by
      rw [List.map_inj_left]
      exact forall₂_congr fun item _ => by simp [Prod.ext_iff]
    _ ↔ _ := by
      constructor
      · intro h name s hmem
        have hset : (name, Value.str s) ∈ given := List.mem_filter.2 ⟨hmem, rfl⟩
        exact (rereadValue_eq_self_iff (.str s)).1 (h _ hset) s rfl
      · intro h item hitem
        refine (rereadValue_eq_self_iff item.2).2 fun s hs => h item.1 s ?_
        rw [← hs]
        exact (List.mem_filter.1 hitem).1

def sampleAttributes : Attributes :=
  .ofList [("label", .str "a\\lb"), ("width", .int (-12)), ("style", .null), ("bold", .bool true),
    ("tooltip", .str "c\\nd"), ("xlabel", .markup "<<b>x</b>>")]

theorem sampleAttributes_read_back :
    (∀ item ∈ sampleAttributes.entries, isName item.1 = true) ∧
      (∀ item ∈ sampleAttributes.entries, IsReadable item.2) ∧
      ∃ read : Attributes, parse sampleAttributes.text = .ok read ∧
        parse sampleAttributes.listText = .ok read ∧
        (read.entries = sampleAttributes.entries.filter isSet ↔
          ∀ name s, (name, .str s) ∈ sampleAttributes.entries →
            ∀ c ∈ ['n', 'r', '\n', '\r'], ¬ ['\\', c] <:+: s.toList) :=
  have hnames : ∀ item ∈ sampleAttributes.entries, isName item.1 = true := by decide +kernel
  have hvalues : ∀ item ∈ sampleAttributes.entries, IsReadable item.2 := by decide +kernel
  ⟨hnames, hvalues, reads_back_iff hnames hvalues⟩

end HighlightGraph.Attributes
