import HighlightGraph.Proofs.Attributes.Recognized
import HighlightGraph.Proofs.Attributes.RoundTrip
/-!
# Markup read back

A text that begins like markup is taken for markup, whether or not it closes the brackets that it
opens, and markup is written as it is. The reader counts brackets, so that all markup it reads is
closed: of the texts taken for markup, those that are closed are read back, and no others.
-/

namespace HighlightGraph

namespace Attributes

/-! ## What is read as markup is closed -/

theorem Closes.cons {depth deeper : Nat} {c : Char} {cs : List Char} (h : Closes deeper cs)
    (hdeeper : 0 < deeper) (hcs : cs ≠ [])
    (hcount : depth + [c].count '<' = deeper + [c].count '>') : Closes depth (c :: cs) := by
  intro n hlength hn
  obtain ⟨m, rfl⟩ := Nat.exists_eq_succ_of_ne_zero (Nat.ne_of_gt hn)
  rw [List.take_succ_cons, ← List.singleton_append (l := List.take m cs), List.count_append,
    List.count_append, List.length_cons]
  rcases Nat.eq_zero_or_pos m with rfl | hm
  · have hlong : 0 < cs.length := List.length_pos_iff.2 hcs
    rw [List.take_zero, List.count_nil, List.count_nil]
    omega
  · have hrest := h m (by simpa using hlength) hm
    omega

theorem closes_of_splitMarkup {depth : Nat} (hdepth : 0 < depth) {cs inside after : List Char}
    (h : splitMarkup depth cs = some (inside, after)) : inside ≠ [] ∧ Closes depth inside := by
  induction cs generalizing depth inside with
  | nil => cases h
  | cons c cs ih =>
      have hnext : ∀ {deeper : Nat}, 0 < deeper →
          depth + [c].count '<' = deeper + [c].count '>' →
            (splitMarkup deeper cs).map (fun r => (c :: r.1, r.2)) = some (inside, after) →
              inside ≠ [] ∧ Closes depth inside := by
        intro deeper hdeeper hcount hsplit
        obtain ⟨⟨rest, _⟩, hrest, heq⟩ := Option.map_eq_some_iff.1 hsplit
        cases heq
        obtain ⟨hne, hcloses⟩ := ih hdeeper hrest
        exact ⟨List.cons_ne_nil _ _, hcloses.cons hdeeper hne hcount⟩
      rw [splitMarkup] at h
      by_cases hopen : c = '<'
      · rw [if_pos hopen] at h
        exact hnext (Nat.succ_pos depth) (by simp [hopen]) h
      by_cases hclose : c = '>'
      · rw [if_neg hopen, if_pos hclose] at h
        by_cases hone : depth = 1
        · rw [if_pos hone] at h
          cases h
          subst hone hclose
          exact ⟨List.cons_ne_nil _ _, by decide⟩
        · rw [if_neg hone] at h
          exact hnext (show 0 < depth - 1 by omega) (by simp [hclose]; omega) h
      · rw [if_neg hopen, if_neg hclose] at h
        exact hnext hdepth (by simp [hopen, hclose]) h

theorem closedMarkup_of_splitMarkup {rest inside after : List Char}
    (h : splitMarkup 0 ('<' :: rest) = some (inside, after)) : ClosedMarkup inside := by
  rw [splitMarkup, if_pos rfl] at h
  obtain ⟨⟨inner, _⟩, hinner, heq⟩ := Option.map_eq_some_iff.1 h
  cases heq
  obtain ⟨hne, hcloses⟩ := closes_of_splitMarkup Nat.one_pos hinner
  exact ⟨rfl, hcloses.cons Nat.one_pos hne (by decide)⟩

def IsClosed (v : Value) : Prop :=
  ∀ text, v = .markup text → ClosedMarkup text.toList

theorem isClosed_value {numeral : Numeral} {v : Value} (h : numeral.value = .ok v) :
    IsClosed v := by
  rintro text rfl
  rw [Numeral.value] at h
  split at h
  · split at h <;> cases h
  · cases h

theorem isClosed_wordValue (word : String) : IsClosed (wordValue word) := by
  intro text h
  rw [wordValue] at h
  split at h
  · cases h
  · split at h <;> cases h

theorem isClosed_readValue {name : String} {cs after : List Char} {v : Value}
    (h : readValue name cs = .ok (v, after)) : IsClosed v := by
  unfold readValue at h
  split at h
  · cases h
  · next c rest =>
    split at h
    · -- between quotes
      split at h
      · cases h
      · split at h
        · cases h
        · cases h
          intro text heq
          cases heq
    · split at h
      · next hangle =>
        subst hangle
        split at h
        · cases h
        · next hsplit =>
          cases h
          intro text heq
          cases heq
          rw [String.toList_ofList]
          exact closedMarkup_of_splitMarkup hsplit
      · split at h
        · split at h
          · cases h
          · next hvalue =>
            cases h
            exact isClosed_value hvalue
        · split at h
          · cases h
            exact isClosed_wordValue _
          · cases h

theorem isClosed_readItem {cs rest : List Char} {item : String × Value}
    (h : readItem cs = .ok (item, rest)) : IsClosed item.2 := by
  unfold readItem at h
  split at h
  · cases h
  · obtain ⟨⟨v, after⟩, hvalue, heq⟩ := map_eq_ok h
    cases heq
    exact isClosed_readValue hvalue

theorem isClosed_readItems {cs : List Char} {items : List (String × Value)}
    (h : readItems cs = .ok items) : ∀ item ∈ items, IsClosed item.2 := by
  fun_induction readItems cs generalizing items with
  | case1 =>
    cases h
    exact List.forall_mem_nil _
  | case2 => cases h
  | case3 cs hne item rest hitem ih =>
    obtain ⟨others, hothers, rfl⟩ := map_eq_ok h
    exact List.forall_mem_cons.2 ⟨isClosed_readItem hitem, ih hothers⟩

/-- All markup that is read from a text of attributes is closed, whatever the text. -/
theorem isClosed_of_parse {text : String} {read : Attributes} (h : parse text = .ok read) :
    ∀ v ∈ read.values, IsClosed v := by
  rw [parse] at h
  split at h
  · next hitems =>
    cases h
    exact Table.overlay_induction (List.forall_mem_nil _) (isClosed_readItems hitems)
  · cases h

/-! ## Markup that is written and read -/

/-- Whether the text of attributes is read, with their names in their order, and with every markup
among them as the same markup. -/
def MarkupReadsBack (attributes : Attributes) : Prop :=
  ∃ read : Attributes, parse attributes.text = .ok read ∧ read.keys = attributes.keys ∧
    ∀ name text, attributes.get? name = some (.markup text) → read.get? name = some (.markup text)

theorem MarkupReadsBack.isClosed {attributes : Attributes} (h : MarkupReadsBack attributes) :
    ∀ v ∈ attributes.values, IsClosed v := by
  rintro v hv text rfl
  obtain ⟨read, hread, -, hmarkup⟩ := h
  obtain ⟨name, hname⟩ := Table.mem_values_iff.1 hv
  exact isClosed_of_parse hread _ (Table.mem_values_iff.2 ⟨name, hmarkup name text hname⟩) text rfl

theorem Legible.markupReadsBack {attributes : Attributes} (h : Legible attributes)
    (hset : ∀ v ∈ attributes.values, v ≠ .null) : MarkupReadsBack attributes := by
  refine ⟨attributes.reread, h.parse_text, Table.keys_filterMapValues fun v hv => ?_, ?_⟩
  · have hne := hset v hv
    cases v with
    | null => exact absurd rfl hne
    | _ => rfl
  · intro name text hname
    rw [reread, Table.get?_filterMapValues, hname]
    rfl

section Texts

variable {attributes : Attributes} (htexts : ∀ item ∈ attributes.entries, ∃ s, item.2 = .str s)
include htexts

theorem legible_asMarkup (hnames : ∀ item ∈ attributes.entries, isName item.1 = true)
    (hclosed : ∀ name s, attributes.get? name = some (.str s) → "<<".toList <+: s.toList →
      ClosedMarkup s.toList) : Legible (attributes.mapValues Value.asMarkup) := by
  intro item hitem
  obtain ⟨⟨name, v⟩, hmem, rfl⟩ := List.mem_map.1 hitem
  obtain ⟨s, hs⟩ := htexts _ hmem
  cases hs
  have hname : isName name = true := hnames _ hmem
  refine ⟨hname, show IsReadable (Value.str s).asMarkup from ?_⟩
  by_cases hprefix : "<<".toList <+: s.toList
  · rw [Value.asMarkup_of_brackets hprefix]
    exact hclosed name s (Table.mem_entries_iff.1 hmem) hprefix
  · rw [Value.asMarkup_of_no_brackets hprefix]
    trivial

theorem asMarkup_ne_null : ∀ v ∈ (attributes.mapValues Value.asMarkup).values, v ≠ .null := by
  refine Table.forall_values_mapValues fun v hv => ?_
  obtain ⟨item, hmem, rfl⟩ := List.mem_map.1 hv
  obtain ⟨s, hs⟩ := htexts item hmem
  rw [hs, Value.asMarkup]
  split <;> exact nofun

end Texts

/-- Texts are written with markup told among them, and read with their names in their order and the
markup as it was, if and only if every text that is taken for markup closes its brackets: with its
last character, and not before. -/
theorem markup_reads_back_iff {attributes : Attributes}
    (hnames : ∀ item ∈ attributes.entries, isName item.1 = true)
    (htexts : ∀ item ∈ attributes.entries, ∃ s, item.2 = .str s) :
    ∃ told, recognized attributes.toValue = .ok told ∧ told.keys = attributes.keys ∧
      (MarkupReadsBack told ↔
        ∀ name s, attributes.get? name = some (.str s) → "<<".toList <+: s.toList →
          ClosedMarkup s.toList) := by
  refine ⟨_, recognized_toValue attributes, List.map_map, ?_, ?_⟩
  · intro h name s hname hprefix
    have hmarkup : (attributes.mapValues Value.asMarkup).get? name = some (.markup s) := by
      rw [Table.get?_mapValues, hname, Option.map_some, Value.asMarkup_of_brackets hprefix]
    exact h.isClosed _ (Table.mem_values_iff.2 ⟨name, hmarkup⟩) s rfl
  · intro hclosed
    exact (legible_asMarkup htexts hnames hclosed).markupReadsBack (asMarkup_ne_null htexts)

def markupLabel : Attributes :=
  .ofList [("label", .str "<<b>A</b>>"), ("tooltip", .str "<A>")]

theorem closed_label_reads_back :
    (∀ item ∈ markupLabel.entries, isName item.1 = true) ∧
      (∀ item ∈ markupLabel.entries, ∃ s, item.2 = .str s) ∧
      ∃ told, recognized markupLabel.toValue = .ok told ∧ MarkupReadsBack told ∧
        told.get? "label" = some (.markup "<<b>A</b>>") ∧
        told.get? "tooltip" = some (.str "<A>") := by
  have hnames : ∀ item ∈ markupLabel.entries, isName item.1 = true := by decide
  have htexts : ∀ item ∈ markupLabel.entries, ∃ s, item.2 = .str s :=
    List.forall_mem_cons.2 ⟨⟨_, rfl⟩, List.forall_mem_singleton.2 ⟨_, rfl⟩⟩
  obtain ⟨told, htold, -, hreads⟩ := markup_reads_back_iff hnames htexts
  have hlabels : ∀ item ∈ markupLabel.entries, ∀ s, item.2 = .str s → "<<".toList <+: s.toList →
      ClosedMarkup s.toList := by
    refine List.forall_mem_cons.2 ⟨?_, List.forall_mem_singleton.2 ?_⟩
    · rintro s heq -
      cases heq
      decide
    · rintro s heq hprefix
      cases heq
      exact absurd hprefix (by decide)
  refine ⟨hnames, htexts, told, htold, hreads.2 ?_, ?_⟩
  · intro name s hname
    exact hlabels (name, .str s) (Table.mem_entries_iff.2 hname) s rfl
  · cases (recognized_toValue _).symm.trans htold
    exact ⟨rfl, rfl⟩

/-- A text that goes on behind its last bracket is taken for markup, and not read back. -/
theorem stereotype_does_not_read_back :
    ¬ ∀ attributes : Attributes, (∀ item ∈ attributes.entries, isName item.1 = true) →
      (∀ item ∈ attributes.entries, ∃ s, item.2 = .str s) →
        ∃ told, recognized attributes.toValue = .ok told ∧ told.keys = attributes.keys ∧
          MarkupReadsBack told := by
  intro hclaim
  let attributes : Attributes := .ofList [("label", .str "<<interface>> Service")]
  obtain ⟨told, htold, -, hreads⟩ :=
    hclaim attributes (by decide) (List.forall_mem_singleton.2 ⟨_, rfl⟩)
  cases (recognized_toValue _).symm.trans htold
  have hmem : Value.markup "<<interface>> Service" ∈
      (attributes.mapValues Value.asMarkup).values := List.mem_singleton_self _
  have hopen : ¬ ClosedMarkup "<<interface>> Service".toList := by decide
  exact hopen (hreads.isClosed _ hmem _ rfl)

end Attributes

end HighlightGraph
