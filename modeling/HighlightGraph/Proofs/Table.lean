import HighlightGraph.Table
import Mathlib.Data.List.Induction
import Mathlib.Data.List.Nodup
/-!
# Look-up and entries of tables

Look-up after an operation as one equation each, and look-up read as membership among the entries,
which distinct keys make possible.
-/

namespace HighlightGraph.Table

variable {κ α : Type}

/-! ## Filters -/

theorem filterKeys_eq_self {t : Table κ α} {p : κ → Bool} (h : ∀ k ∈ t.keys, p k = true) :
    t.filterKeys p = t := by
  apply Table.ext
  apply List.filter_eq_self.2
  intro entry hentry
  exact h entry.1 (List.mem_map_of_mem hentry)

theorem filterKeys_congr {t : Table κ α} {p q : κ → Bool} (h : ∀ k ∈ t.keys, p k = q k) :
    t.filterKeys p = t.filterKeys q := by
  apply Table.ext
  apply List.filter_congr
  intro entry hentry
  exact h entry.1 (List.mem_map_of_mem hentry)

theorem filterKeys_filterKeys (t : Table κ α) (p q : κ → Bool) :
    (t.filterKeys p).filterKeys q = t.filterKeys fun k => q k && p k :=
  Table.ext List.filter_filter

theorem keys_filterKeys (t : Table κ α) (p : κ → Bool) :
    (t.filterKeys p).keys = t.keys.filter p := by
  rw [keys, keys, List.filter_map]
  rfl

/-! ## What is said of all values -/

theorem forall_values_mapValues {β : Type} {t : Table κ α} {f : α → β} {P : β → Prop}
    (h : ∀ a ∈ t.values, P (f a)) : ∀ b ∈ (t.mapValues f).values, P b := by
  intro b hb
  obtain ⟨entry, hentry, rfl⟩ := List.mem_map.1 hb
  obtain ⟨old, hold, rfl⟩ := List.mem_map.1 hentry
  exact h old.2 (List.mem_map_of_mem hold)

theorem forall_values_filterKeys {P : α → Prop} {t : Table κ α} (ht : ∀ a ∈ t.values, P a)
    (p : κ → Bool) : ∀ a ∈ (t.filterKeys p).values, P a :=
  fun a ha => ht a (((List.filter_sublist).map Prod.snd).subset ha)

/-! ## Values made anew or dropped -/

section FilterMapValues

variable {β γ : Type}

theorem map_fst_filterMap_sublist (f : α → Option β) (entries : List (κ × α)) :
    ((entries.filterMap fun entry => (f entry.2).map (entry.1, ·)).map Prod.fst).Sublist
      (entries.map Prod.fst) := by
  induction entries with
  | nil => exact .slnil
  | cons entry rest ih =>
      rw [List.filterMap_cons, List.map_cons]
      cases f entry.2 with
      | none => exact ih.cons entry.1
      | some b => exact ih.cons_cons entry.1

/-- The table with every value replaced by what a function makes of it. An entry of whose value it
makes nothing is dropped. -/
def filterMapValues (f : α → Option β) (t : Table κ α) : Table κ β where
  entries := t.entries.filterMap fun entry => (f entry.2).map (entry.1, ·)
  nodup_keys := t.nodup_keys.sublist (map_fst_filterMap_sublist f t.entries)

theorem filterMap_eq_self {f : α → Option α} {entries : List (κ × α)}
    (h : ∀ entry ∈ entries, f entry.2 = some entry.2) :
    entries.filterMap (fun entry => (f entry.2).map (entry.1, ·)) = entries := by
  calc entries.filterMap (fun entry => (f entry.2).map (entry.1, ·))
      = entries.filterMap some := by
        apply List.filterMap_congr
        intro entry hentry
        rw [h entry hentry]
        rfl
    _ = entries := List.filterMap_some

theorem filterMapValues_eq_self {t : Table κ α} {f : α → Option α}
    (h : ∀ a ∈ t.values, f a = some a) : t.filterMapValues f = t :=
  Table.ext (filterMap_eq_self fun _ hentry => h _ (List.mem_map_of_mem hentry))

theorem filterMapValues_congr {t : Table κ α} {f g : α → Option β}
    (h : ∀ a ∈ t.values, f a = g a) : t.filterMapValues f = t.filterMapValues g := by
  apply Table.ext
  apply List.filterMap_congr
  intro entry hentry
  rw [h entry.2 (List.mem_map_of_mem hentry)]

theorem keys_filterMapValues {t : Table κ α} {f : α → Option β}
    (h : ∀ a ∈ t.values, (f a).isSome = true) : (t.filterMapValues f).keys = t.keys := by
  show (t.entries.filterMap fun entry => (f entry.2).map (entry.1, ·)).map Prod.fst = _
  rw [List.map_filterMap, keys, ← List.filterMap_eq_map]
  apply List.filterMap_congr
  intro entry hentry
  obtain ⟨b, hb⟩ := Option.isSome_iff_exists.1 (h entry.2 (List.mem_map_of_mem hentry))
  rw [hb]
  rfl

theorem filterMapValues_filterMapValues (t : Table κ α) (f : α → Option β) (g : β → Option γ) :
    (t.filterMapValues f).filterMapValues g = t.filterMapValues fun a => (f a).bind g := by
  apply Table.ext
  show (t.entries.filterMap _).filterMap _ = t.entries.filterMap _
  rw [List.filterMap_filterMap]
  apply List.filterMap_congr
  intro entry _
  cases h : f entry.2 <;> simp [h]

end FilterMapValues

/-! ## Look-up -/

variable [DecidableEq κ]

theorem get?_mapValues {β : Type} (t : Table κ α) (f : α → β) (k : κ) :
    (t.mapValues f).get? k = (t.get? k).map f := by
  change lookup k (t.entries.map fun entry => (entry.1, f entry.2)) = (lookup k t.entries).map f
  induction t.entries with
  | nil => rfl
  | cons entry rest ih =>
      by_cases hk : entry.1 = k
      · simp [lookup, hk]
      · simp [lookup, hk, ih]

theorem mapValues_insert {β : Type} (t : Table κ α) (f : α → β) (k : κ) (a : α) :
    (t.insert k a).mapValues f = (t.mapValues f).insert k (f a) := by
  apply Table.ext
  show (store k a t.entries).map (fun entry => (entry.1, f entry.2)) =
    store k (f a) (t.entries.map fun entry => (entry.1, f entry.2))
  induction t.entries with
  | nil => rfl
  | cons entry rest ih =>
      by_cases hk : entry.1 = k
      · simp [store, hk]
      · simp [store, hk, ih]

theorem mapValues_overlay {β : Type} (t : Table κ α) (f : α → β) (entries : List (κ × α)) :
    (t.overlay entries).mapValues f =
      (t.mapValues f).overlay (entries.map fun entry => (entry.1, f entry.2)) := by
  induction entries generalizing t with
  | nil => rfl
  | cons entry rest ih =>
      show ((t.insert entry.1 entry.2).overlay rest).mapValues f = _
      rw [ih, mapValues_insert]
      rfl

theorem get?_insert (t : Table κ α) (k l : κ) (a : α) :
    (t.insert k a).get? l = if l = k then some a else t.get? l := by
  by_cases h : l = k
  · rw [if_pos h, h, get?_insert_self]
  · rw [if_neg h, get?_insert_of_ne t h]

theorem get?_erase (t : Table κ α) (k l : κ) :
    (t.erase k).get? l = if l = k then none else t.get? l := by
  by_cases h : l = k
  · rw [if_pos h, h, get?_erase_self]
  · rw [if_neg h, get?_erase_of_ne t h]

theorem mem_of_lookup {k : κ} {a : α} {entries : List (κ × α)}
    (h : lookup k entries = some a) : (k, a) ∈ entries := by
  induction entries with
  | nil => cases h
  | cons entry rest ih =>
      obtain ⟨other, b⟩ := entry
      by_cases hk : other = k
      · rw [lookup, if_pos hk] at h
        cases h
        rw [hk]
        exact List.mem_cons_self
      · rw [lookup, if_neg hk] at h
        exact List.mem_cons_of_mem _ (ih h)

theorem lookup_of_mem {k : κ} {a : α} {entries : List (κ × α)}
    (hnodup : (entries.map Prod.fst).Nodup) (h : (k, a) ∈ entries) :
    lookup k entries = some a := by
  induction entries with
  | nil => cases h
  | cons entry rest ih =>
      rw [List.map_cons, List.nodup_cons] at hnodup
      rcases List.mem_cons.1 h with rfl | hrest
      · rw [lookup, if_pos rfl]
      · have hne : entry.1 ≠ k := by
          rintro rfl
          exact hnodup.1 (List.mem_map.2 ⟨_, hrest, rfl⟩)
        rw [lookup, if_neg hne]
        exact ih hnodup.2 hrest

theorem mem_entries_iff {t : Table κ α} {k : κ} {a : α} :
    (k, a) ∈ t.entries ↔ t.get? k = some a :=
  ⟨lookup_of_mem t.nodup_keys, mem_of_lookup⟩

theorem mem_values_iff {t : Table κ α} {a : α} : a ∈ t.values ↔ ∃ k, t.get? k = some a := by
  rw [values, List.mem_map]
  constructor
  · rintro ⟨⟨k, b⟩, hmem, rfl⟩
    exact ⟨k, mem_entries_iff.1 hmem⟩
  · rintro ⟨k, hk⟩
    exact ⟨(k, a), mem_entries_iff.2 hk, rfl⟩

theorem contains_iff {t : Table κ α} {k : κ} : t.contains k = true ↔ ∃ a, t.get? k = some a := by
  rw [contains, Option.isSome_iff_exists]

theorem contains_iff_mem_keys {t : Table κ α} {k : κ} : t.contains k = true ↔ k ∈ t.keys := by
  rw [contains_iff, keys, List.mem_map]
  constructor
  · rintro ⟨a, ha⟩
    exact ⟨(k, a), mem_entries_iff.2 ha, rfl⟩
  · rintro ⟨⟨_, a⟩, hmem, rfl⟩
    exact ⟨a, mem_entries_iff.1 hmem⟩

theorem contains_eq_false_iff {t : Table κ α} {k : κ} :
    t.contains k = false ↔ t.get? k = none := by
  rw [contains, Option.isSome_eq_false_iff, Option.isNone_iff_eq_none]

theorem isEmpty_insert (t : Table κ α) (k : κ) (a : α) : (t.insert k a).isEmpty = false := by
  have h : (k, a) ∈ (t.insert k a).entries := mem_entries_iff.2 (get?_insert_self t k a)
  rw [isEmpty, List.isEmpty_eq_false_iff]
  exact List.ne_nil_of_mem h

theorem forall_values_insert {P : α → Prop} {t : Table κ α} (ht : ∀ a ∈ t.values, P a) (k : κ)
    {a : α} (ha : P a) : ∀ b ∈ (t.insert k a).values, P b := by
  intro b hb
  obtain ⟨l, hl⟩ := mem_values_iff.1 hb
  rw [get?_insert] at hl
  split at hl
  · cases hl
    exact ha
  · exact ht b (mem_values_iff.2 ⟨l, hl⟩)

/-- What is said of all values holds in a table if it holds of those that are laid over it. -/
theorem overlay_induction {P : α → Prop} {t : Table κ α} (ht : ∀ a ∈ t.values, P a)
    {entries : List (κ × α)} (hentries : ∀ entry ∈ entries, P entry.2) :
    ∀ a ∈ (t.overlay entries).values, P a := by
  induction entries generalizing t with
  | nil => exact ht
  | cons entry rest ih =>
      rw [List.forall_mem_cons] at hentries
      exact ih (forall_values_insert ht entry.1 hentries.1) hentries.2

theorem get?_filterMapValues {β : Type} (t : Table κ α) (f : α → Option β) (k : κ) :
    (t.filterMapValues f).get? k = (t.get? k).bind f := by
  apply Option.ext
  intro b
  rw [Option.bind_eq_some_iff]
  simp only [← mem_entries_iff, filterMapValues, List.mem_filterMap, Option.map_eq_some_iff]
  constructor
  · rintro ⟨⟨l, a⟩, hmem, c, hc, heq⟩
    cases heq
    exact ⟨a, hmem, hc⟩
  · rintro ⟨a, hmem, ha⟩
    exact ⟨(k, a), hmem, b, ha, rfl⟩

theorem get?_filterKeys (t : Table κ α) (p : κ → Bool) (k : κ) :
    (t.filterKeys p).get? k = if p k then t.get? k else none := by
  apply Option.ext
  intro a
  rw [← mem_entries_iff, filterKeys, List.mem_filter, mem_entries_iff]
  cases hk : p k <;> simp

/-! ## Tables that an operation leaves alone -/

theorem insert_eq_self {t : Table κ α} {k : κ} {a : α} (h : t.get? k = some a) :
    t.insert k a = t := by
  apply Table.ext
  show store k a t.entries = t.entries
  unfold get? at h
  generalize t.entries = entries at h
  induction entries with
  | nil => cases h
  | cons entry rest ih =>
      obtain ⟨other, b⟩ := entry
      by_cases hk : other = k
      · rw [lookup, if_pos hk] at h
        rw [store, if_pos hk, Option.some.inj h]
      · rw [lookup, if_neg hk] at h
        rw [store, if_neg hk, ih h]

theorem erase_eq_self {t : Table κ α} {k : κ} (h : t.get? k = none) : t.erase k = t := by
  apply filterKeys_eq_self
  intro other hother
  rw [decide_eq_true_eq]
  rintro rfl
  rw [← contains_eq_false_iff, ← Bool.not_eq_true, contains_iff_mem_keys] at h
  exact h hother

/-! ## Changing a single value -/

theorem filterMap_of_lookup {f : α → Option α} {k : κ} {a : α} {entries : List (κ × α)}
    (hnodup : (entries.map Prod.fst).Nodup) (hk : lookup k entries = some a)
    (h : ∀ entry ∈ entries, entry.1 ≠ k → f entry.2 = some entry.2) :
    entries.filterMap (fun entry => (f entry.2).map (entry.1, ·)) =
      match f a with
      | some b => store k b entries
      | none => entries.filter fun entry => entry.1 ≠ k := by
  induction entries with
  | nil => cases hk
  | cons entry rest ih =>
      obtain ⟨other, b⟩ := entry
      rw [List.map_cons, List.nodup_cons] at hnodup
      rw [List.forall_mem_cons] at h
      by_cases hother : other = k
      · -- The keys of the rest are other ones, so the rest stays.
        subst hother
        rw [lookup, if_pos rfl] at hk
        cases hk
        have hne : ∀ entry ∈ rest, entry.1 ≠ other := by
          intro entry hentry heq
          exact hnodup.1 (List.mem_map.2 ⟨entry, hentry, heq⟩)
        have hrest : rest.filterMap (fun entry => (f entry.2).map (entry.1, ·)) = rest :=
          filterMap_eq_self fun entry hentry => h.2 entry hentry (hne entry hentry)
        rw [List.filterMap_cons, hrest]
        cases f a with
        | some c => simp [store]
        | none =>
            rw [List.filter_cons_of_neg (by simp),
              List.filter_eq_self.2 fun entry hentry => decide_eq_true (hne entry hentry)]
            rfl
      · rw [lookup, if_neg hother] at hk
        rw [List.filterMap_cons, h.1 hother, ih hnodup.2 hk h.2]
        cases f a with
        | some c => simp [store, hother]
        | none => simp [hother]

/-- A function that leaves all values but one alone changes or drops the entry of that one. -/
theorem filterMapValues_of_get? {t : Table κ α} {f : α → Option α} {k : κ} {a : α}
    (hk : t.get? k = some a) (h : ∀ entry ∈ t.entries, entry.1 ≠ k → f entry.2 = some entry.2) :
    t.filterMapValues f = match f a with
      | some b => t.insert k b
      | none => t.erase k := by
  have hentries := filterMap_of_lookup t.nodup_keys hk h
  apply Table.ext
  refine hentries.trans ?_
  cases f a <;> rfl

/-! ## Storing under a filter -/

/-- A filter that keeps a key lets storing under it pass. -/
theorem filterKeys_insert (t : Table κ α) {p : κ → Bool} {k : κ} (hk : p k = true) (a : α) :
    (t.insert k a).filterKeys p = (t.filterKeys p).insert k a := by
  apply Table.ext
  show (store k a t.entries).filter (fun entry => p entry.1) =
    store k a (t.entries.filter fun entry => p entry.1)
  induction t.entries with
  | nil => simp [store, hk]
  | cons entry rest ih =>
      obtain ⟨other, b⟩ := entry
      by_cases hother : other = k
      · subst hother
        simp [store, hk]
      · rw [store, if_neg hother, List.filter_cons, List.filter_cons, ih]
        split
        · rw [store, if_neg hother]
        · rfl

theorem erase_insert (t : Table κ α) {k l : κ} (h : k ≠ l) (a : α) :
    (t.insert k a).erase l = (t.erase l).insert k a :=
  filterKeys_insert t (decide_eq_true h) a

/-! ## Tables of lists -/

theorem store_of_notMem {k : κ} {entries : List (κ × α)} (hk : k ∉ entries.map Prod.fst) (a : α) :
    store k a entries = entries ++ [(k, a)] := by
  induction entries with
  | nil => rfl
  | cons entry rest ih =>
      rw [List.map_cons, List.mem_cons, not_or] at hk
      rw [store, if_neg (Ne.symm hk.1), ih hk.2, List.cons_append]

theorem entries_overlay {t : Table κ α} {entries : List (κ × α)}
    (hnodup : ((t.entries ++ entries).map Prod.fst).Nodup) :
    (t.overlay entries).entries = t.entries ++ entries := by
  induction entries generalizing t with
  | nil => rw [List.append_nil, overlay, List.foldl_nil]
  | cons entry rest ih =>
      have hfresh : entry.1 ∉ t.entries.map Prod.fst := by
        intro hmem
        rw [List.map_append, List.map_cons, List.nodup_append] at hnodup
        exact hnodup.2.2 _ hmem _ List.mem_cons_self rfl
      have hinsert : (t.insert entry.1 entry.2).entries = t.entries ++ [entry] :=
        store_of_notMem hfresh entry.2
      show ((t.insert entry.1 entry.2).overlay rest).entries = _
      rw [ih (by rwa [hinsert, List.append_assoc]), hinsert, List.append_assoc,
        List.singleton_append]

theorem entries_ofList {entries : List (κ × α)} (hnodup : (entries.map Prod.fst).Nodup) :
    (ofList entries).entries = entries :=
  entries_overlay (t := empty) hnodup

theorem ofList_entries (t : Table κ α) : ofList t.entries = t :=
  Table.ext (entries_ofList t.nodup_keys)

theorem filter_entries_eq (t : Table κ α) (k : κ) :
    (t.entries.filter fun entry => entry.1 = k).map Prod.snd = (t.get? k).toList := by
  have hnodup := t.nodup_keys
  show _ = (lookup k t.entries).toList
  generalize t.entries = entries at hnodup
  induction entries with
  | nil => rfl
  | cons entry rest ih =>
      rw [List.map_cons, List.nodup_cons] at hnodup
      by_cases hk : entry.1 = k
      · have hrest : rest.filter (fun entry => decide (entry.1 = k)) = [] := by
          rw [List.filter_eq_nil_iff]
          intro other hother
          rw [decide_eq_true_eq]
          rintro rfl
          exact hnodup.1 (hk ▸ List.mem_map_of_mem hother)
        rw [List.filter_cons_of_pos (by simpa using hk), hrest, lookup, if_pos hk]
        rfl
      · rw [List.filter_cons_of_neg (by simpa using hk), ih hnodup.2, lookup, if_neg hk]

/-- What a table of a list of entries holds under a key is what the last entry of the key says. -/
theorem get?_ofList (entries : List (κ × α)) (k : κ) :
    (ofList entries).get? k =
      ((entries.filter fun entry => entry.1 = k).map Prod.snd).getLast? := by
  induction entries using List.reverseRecOn with
  | nil => rfl
  | append_singleton entries entry ih =>
      have hinsert : ofList (entries ++ [entry]) = (ofList entries).insert entry.1 entry.2 :=
        List.foldl_append
      rw [hinsert, get?_insert, List.filter_append, List.map_append]
      by_cases hk : entry.1 = k
      · rw [if_pos hk.symm, List.filter_cons_of_pos (by simpa using hk)]
        exact List.getLast?_concat.symm
      · rw [if_neg (Ne.symm hk), List.filter_cons_of_neg (by simpa using hk), List.filter_nil,
          List.map_nil, List.append_nil, ih]

theorem mem_of_mem_ofList {entries : List (κ × α)} {entry : κ × α}
    (h : entry ∈ (ofList entries).entries) : entry ∈ entries := by
  have hlast : (ofList entries).get? entry.1 = some entry.2 := mem_entries_iff.1 h
  rw [get?_ofList] at hlast
  obtain ⟨other, hother, hvalue⟩ := List.mem_map.1 (List.mem_of_getLast? hlast)
  rw [List.mem_filter, decide_eq_true_eq] at hother
  rw [← Prod.ext hother.2 hvalue]
  exact hother.1

/-! ## Tables laid over tables -/

theorem overlay_append (t : Table κ α) (entries later : List (κ × α)) :
    t.overlay (entries ++ later) = (t.overlay entries).overlay later :=
  List.foldl_append

theorem get?_overlay (t : Table κ α) (entries : List (κ × α)) (k : κ) :
    (t.overlay entries).get? k = ((ofList entries).get? k).or (t.get? k) := by
  induction entries using List.reverseRecOn with
  | nil => rfl
  | append_singleton entries entry ih =>
      -- The entry that is stored last is the first one that is found.
      rw [ofList, overlay_append, overlay_append]
      show ((t.overlay entries).insert _ _).get? k = (((ofList entries).insert _ _).get? k).or _
      rw [get?_insert, get?_insert, ih]
      split <;> rfl

theorem mem_keys_overlay {t : Table κ α} {entries : List (κ × α)} {k : κ} :
    k ∈ (t.overlay entries).keys ↔ k ∈ t.keys ∨ k ∈ (ofList entries).keys := by
  simp only [← contains_iff_mem_keys, contains, get?_overlay, Option.isSome_or, Bool.or_eq_true,
    or_comm]

theorem keys_overlay (t : Table κ α) (entries : List (κ × α)) :
    (t.overlay entries).keys = t.keys ++ (ofList entries).keys.filter (· ∉ t.keys) := by
  induction entries using List.reverseRecOn with
  | nil => exact (List.append_nil _).symm
  | append_singleton entries entry ih =>
      rw [ofList, overlay_append, overlay_append]
      show ((t.overlay entries).insert _ _).keys =
        t.keys ++ (((ofList entries).insert _ _).keys).filter _
      rw [keys_insert, keys_insert]
      by_cases hlaid : entry.1 ∈ (ofList entries).keys
      · rw [if_pos (mem_keys_overlay.2 (Or.inr hlaid)), if_pos hlaid, ih]
      · by_cases hkey : entry.1 ∈ t.keys
        · rw [if_pos (mem_keys_overlay.2 (Or.inl hkey)), if_neg hlaid, ih, List.filter_append,
            List.filter_cons_of_neg (by simpa using hkey), List.filter_nil, List.append_nil]
        · rw [if_neg (mt mem_keys_overlay.1 (not_or.2 ⟨hkey, hlaid⟩)), if_neg hlaid, ih,
            List.filter_append, List.filter_cons_of_pos (by simpa using hkey), List.filter_nil,
            List.append_assoc]

/-! ## Weights -/

section Weight

def totalWeight (weight : α → Nat) : List (κ × α) → Nat
  | [] => 0
  | entry :: rest => weight entry.2 + totalWeight weight rest

variable (weight : α → Nat)

theorem totalWeight_store (k : κ) (a : α) (entries : List (κ × α)) :
    totalWeight weight (store k a entries) + (lookup k entries).elim 0 weight =
      totalWeight weight entries + weight a := by
  induction entries with
  | nil => simp [store, lookup, totalWeight]
  | cons entry rest ih =>
      by_cases hk : entry.1 = k
      · simp only [store, lookup, if_pos hk, totalWeight, Option.elim_some]
        omega
      · simp only [store, lookup, if_neg hk, totalWeight]
        omega

/-- Storing under a key adds the weight of the value, and takes away that of the one before. -/
theorem totalWeight_insert (t : Table κ α) (k : κ) (a : α) :
    totalWeight weight (t.insert k a).entries + (t.get? k).elim 0 weight =
      totalWeight weight t.entries + weight a :=
  totalWeight_store weight k a t.entries

theorem totalWeight_overlay_le (t : Table κ α) (entries : List (κ × α)) :
    totalWeight weight (t.overlay entries).entries ≤
      totalWeight weight t.entries + totalWeight weight entries := by
  induction entries generalizing t with
  | nil => exact Nat.le_refl _
  | cons entry rest ih =>
      have hinsert := totalWeight_insert weight t entry.1 entry.2
      calc totalWeight weight (t.overlay (entry :: rest)).entries
          ≤ totalWeight weight (t.insert entry.1 entry.2).entries + totalWeight weight rest :=
            ih (t.insert entry.1 entry.2)
        _ ≤ totalWeight weight t.entries + totalWeight weight (entry :: rest) := by
            rw [totalWeight]
            omega

/-- Entries that lose no weight in a table have distinct keys. -/
theorem nodup_of_totalWeight_le {weight : α → Nat} {t : Table κ α} {entries : List (κ × α)}
    (ht : ∀ a ∈ t.values, 0 < weight a) (hentries : ∀ entry ∈ entries, 0 < weight entry.2)
    (h : totalWeight weight t.entries + totalWeight weight entries ≤
      totalWeight weight (t.overlay entries).entries) :
    ((t.entries ++ entries).map Prod.fst).Nodup := by
  induction entries generalizing t with
  | nil =>
      rw [List.append_nil]
      exact t.nodup_keys
  | cons entry rest ih =>
      rw [List.forall_mem_cons] at hentries
      have hinsert := totalWeight_insert weight t entry.1 entry.2
      have hrest := totalWeight_overlay_le weight (t.insert entry.1 entry.2) rest
      have hoverlay : t.overlay (entry :: rest) =
          (t.insert entry.1 entry.2).overlay rest := rfl
      rw [hoverlay, totalWeight] at h
      -- A value that stood under the key before would have been lost.
      have hfresh : entry.1 ∉ t.keys := by
        intro hmem
        obtain ⟨a, ha⟩ := contains_iff.1 (contains_iff_mem_keys.2 hmem)
        have hpos := ht a (mem_values_iff.2 ⟨_, ha⟩)
        rw [ha, Option.elim_some] at hinsert
        omega
      have hnodup := ih (forall_values_insert ht entry.1 hentries.1) hentries.2 (by omega)
      have hentry : (t.insert entry.1 entry.2).entries = t.entries ++ [entry] :=
        store_of_notMem hfresh entry.2
      rwa [hentry, List.append_assoc] at hnodup

theorem nodup_of_totalWeight_ofList {weight : α → Nat} {entries : List (κ × α)}
    (hentries : ∀ entry ∈ entries, 0 < weight entry.2)
    (h : totalWeight weight entries ≤ totalWeight weight (ofList entries).entries) :
    (entries.map Prod.fst).Nodup := by
  refine nodup_of_totalWeight_le (t := empty) nofun hentries ?_
  exact Nat.le_trans (Nat.le_of_eq (Nat.zero_add _)) h

end Weight

end HighlightGraph.Table
