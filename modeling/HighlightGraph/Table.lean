/-!
# Tables in insertion order

Finite maps that remember the order in which their keys came in: storing under a key that is
there keeps its place, a new key goes last, and an erased key that comes back goes last again.
-/

namespace HighlightGraph

/-- A table: its entries in order, no two of them with the same key. -/
structure Table (κ α : Type) where
  entries : List (κ × α)
  nodup_keys : (entries.map Prod.fst).Nodup

namespace Table

variable {κ α β : Type}

@[ext] theorem ext {t u : Table κ α} (h : t.entries = u.entries) : t = u := by
  cases t
  cases u
  cases h
  rfl

def empty : Table κ α := ⟨[], List.nodup_nil⟩

instance : Inhabited (Table κ α) := ⟨empty⟩

def keys (t : Table κ α) : List κ := t.entries.map Prod.fst

def values (t : Table κ α) : List α := t.entries.map Prod.snd

def size (t : Table κ α) : Nat := t.entries.length

def isEmpty (t : Table κ α) : Bool := t.entries.isEmpty

def mapValues (f : α → β) (t : Table κ α) : Table κ β where
  entries := t.entries.map fun entry => (entry.1, f entry.2)
  nodup_keys := by
    have h : (Prod.fst ∘ fun entry : κ × α => (entry.1, f entry.2)) = Prod.fst := rfl
    rw [List.map_map, h]
    exact t.nodup_keys

def filterKeys (p : κ → Bool) (t : Table κ α) : Table κ α where
  entries := t.entries.filter fun entry => p entry.1
  nodup_keys := t.nodup_keys.sublist ((List.filter_sublist).map Prod.fst)

/-! ## Look-up, storing and erasing -/

variable [DecidableEq κ]

def lookup (k : κ) : List (κ × α) → Option α
  | [] => none
  | (other, a) :: rest => if other = k then some a else lookup k rest

/-- A list of entries with a value stored under a key: in place, or at the end. -/
def store (k : κ) (a : α) : List (κ × α) → List (κ × α)
  | [] => [(k, a)]
  | (other, b) :: rest =>
    if other = k then (other, a) :: rest else (other, b) :: store k a rest

theorem map_fst_store (k : κ) (a : α) (entries : List (κ × α)) :
    (store k a entries).map Prod.fst =
      if k ∈ entries.map Prod.fst then entries.map Prod.fst
      else entries.map Prod.fst ++ [k] := by
  induction entries with
  | nil => simp [store]
  | cons entry rest ih =>
    obtain ⟨other, b⟩ := entry
    by_cases h : other = k
    · simp [store, h]
    · have h' : k ≠ other := fun e => h e.symm
      simp only [store, h, if_false, List.map_cons, ih, List.mem_cons, h', false_or]
      split <;> rfl

theorem nodup_store (k : κ) (a : α) {entries : List (κ × α)}
    (h : (entries.map Prod.fst).Nodup) : ((store k a entries).map Prod.fst).Nodup := by
  rw [map_fst_store]
  split
  · exact h
  · next hk =>
    refine List.nodup_append.2 ⟨h, by simp, ?_⟩
    intro x hx y hy e
    rw [List.mem_singleton] at hy
    exact hk (hy ▸ e ▸ hx)

def get? (t : Table κ α) (k : κ) : Option α := lookup k t.entries

def contains (t : Table κ α) (k : κ) : Bool := (t.get? k).isSome

/-- Stores a value under a key: in the place of the key, or as the last entry. -/
def insert (t : Table κ α) (k : κ) (a : α) : Table κ α :=
  ⟨store k a t.entries, nodup_store k a t.nodup_keys⟩

def erase (t : Table κ α) (k : κ) : Table κ α :=
  t.filterKeys fun other => other ≠ k

def overlay (t : Table κ α) (entries : List (κ × α)) : Table κ α :=
  entries.foldl (fun t entry => t.insert entry.1 entry.2) t

/-- The table of a list of entries: a repeated key keeps its first place and its last value. -/
def ofList (entries : List (κ × α)) : Table κ α := empty.overlay entries

/-! ## What the operations do to look-up and to the keys -/

@[simp] theorem lookup_store_self (k : κ) (a : α) (entries : List (κ × α)) :
    lookup k (store k a entries) = some a := by
  induction entries with
  | nil => simp [store, lookup]
  | cons entry rest ih =>
    obtain ⟨other, b⟩ := entry
    by_cases h : other = k <;> simp [store, lookup, h, ih]

theorem lookup_store_of_ne {k l : κ} (h : l ≠ k) (a : α) (entries : List (κ × α)) :
    lookup l (store k a entries) = lookup l entries := by
  induction entries with
  | nil => simp [store, lookup, Ne.symm h]
  | cons entry rest ih =>
    obtain ⟨other, b⟩ := entry
    by_cases h₁ : other = k
    · subst h₁
      simp [store, lookup, Ne.symm h]
    · rw [store, if_neg h₁, lookup, lookup, ih]

@[simp] theorem get?_empty (k : κ) : (empty : Table κ α).get? k = none := rfl

@[simp] theorem get?_insert_self (t : Table κ α) (k : κ) (a : α) :
    (t.insert k a).get? k = some a :=
  lookup_store_self k a t.entries

theorem get?_insert_of_ne (t : Table κ α) {k l : κ} (h : l ≠ k) (a : α) :
    (t.insert k a).get? l = t.get? l :=
  lookup_store_of_ne h a t.entries

theorem keys_insert (t : Table κ α) (k : κ) (a : α) :
    (t.insert k a).keys = if k ∈ t.keys then t.keys else t.keys ++ [k] :=
  map_fst_store k a t.entries

@[simp] theorem get?_erase_self (t : Table κ α) (k : κ) : (t.erase k).get? k = none := by
  change lookup k (t.entries.filter fun entry => decide (entry.1 ≠ k)) = none
  induction t.entries with
  | nil => rfl
  | cons entry rest ih =>
    by_cases h : entry.1 = k <;> simp_all [lookup]

theorem get?_erase_of_ne (t : Table κ α) {k l : κ} (h : l ≠ k) :
    (t.erase k).get? l = t.get? l := by
  change lookup l (t.entries.filter fun entry => decide (entry.1 ≠ k)) = lookup l t.entries
  induction t.entries with
  | nil => rfl
  | cons entry rest ih =>
    by_cases h₁ : entry.1 = k
    · have h₂ : entry.1 ≠ l := fun e => h (e ▸ h₁)
      simp_all [lookup]
    · by_cases h₂ : entry.1 = l <;> simp_all [lookup]

theorem keys_erase (t : Table κ α) (k : κ) : (t.erase k).keys = t.keys.filter (· ≠ k) := by
  change (t.entries.filter fun entry => decide (entry.1 ≠ k)).map Prod.fst = _
  rw [keys, List.filter_map]
  rfl

end Table

end HighlightGraph
