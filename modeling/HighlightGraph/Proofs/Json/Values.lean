import HighlightGraph.Proofs.Json.Scalars
import HighlightGraph.Proofs.Result
import HighlightGraph.Proofs.Table
/-!
# Values that JSON can write

A value of JSON holds no markup, and its maps have distinct texts as keys. The reader gives no other
values.
-/

namespace HighlightGraph

/-- The values that JSON can write. -/
inductive Value.IsJson : Value → Prop where
  | null : IsJson .null
  | bool (b : Bool) : IsJson (.bool b)
  | int (n : Int) : IsJson (.int n)
  | float (x : Double) : IsJson (.float x)
  | str (s : String) : IsJson (.str s)
  | list {items : List Value} (h : ∀ v ∈ items, IsJson v) : IsJson (.list items)
  | object {members : Table String Value} (h : ∀ v ∈ members.values, IsJson v) :
      IsJson (.ofFields members.entries)

theorem Value.IsJson.ofFields {fields : List (String × Value)}
    (hnodup : (fields.map Prod.fst).Nodup) (h : ∀ v ∈ fields.map Prod.snd, v.IsJson) :
    (Value.ofFields fields).IsJson :=
  @Value.IsJson.object ⟨fields, hnodup⟩ h

namespace Json

theorem readScalar_induction {P : Value → Prop} (hnull : P .null) (hbool : ∀ b, P (.bool b))
    (hfloat : ∀ x, P (.float x))
    (hint : ∀ {n : Int}, (Nat.toDigits 10 n.natAbs).length ≤ maxIntegerDigits → P (.int n))
    {cs : List Char} {r : Value × List Char} (h : readScalar cs = .ok r) : P r.1 := by
  obtain ⟨v, rest⟩ := r
  rcases readScalar_cases h with rfl | ⟨b, rfl⟩ | ⟨x, rfl⟩ | ⟨n, rfl, hn⟩
  · exact hnull
  · exact hbool b
  · exact hfloat x
  · exact hint hn

section Readers

variable {P : Value → Prop} {fuel : Nat}

theorem readItems_induction
    (hvalue : ∀ {cs : List Char} {r : Value × List Char}, readValue fuel cs = .ok r → P r.1)
    (hitems : ∀ {cs : List Char} {r : List Value × List Char}, readItems fuel cs = .ok r →
      ∀ v ∈ r.1, P v) {cs : List Char} {r : List Value × List Char}
    (h : readItems (fuel + 1) cs = .ok r) : ∀ v ∈ r.1, P v := by
  unfold readItems at h
  split at h
  · cases h
  · next v rest hread =>
    split at h
    · cases h
      exact List.forall_mem_singleton.2 (hvalue hread)
    · obtain ⟨items, hrest, rfl⟩ := map_eq_ok h
      exact List.forall_mem_cons.2 ⟨hvalue hread, hitems hrest⟩
    · cases h

theorem readMembers_induction
    (hvalue : ∀ {cs : List Char} {r : Value × List Char}, readValue fuel cs = .ok r → P r.1)
    (hmembers : ∀ {cs : List Char} {r : List (String × Value) × List Char},
      readMembers fuel cs = .ok r → ∀ member ∈ r.1, P member.2)
    {cs : List Char} {r : List (String × Value) × List Char}
    (h : readMembers (fuel + 1) cs = .ok r) : ∀ member ∈ r.1, P member.2 := by
  unfold readMembers at h
  split at h
  · cases h
  · split at h
    · cases h
    · split at h
      · cases h
      · next v rest hread =>
        split at h
        · cases h
          exact List.forall_mem_singleton.2 (hvalue hread)
        · obtain ⟨members, hrest, rfl⟩ := map_eq_ok h
          exact List.forall_mem_cons.2 ⟨hvalue hread, hmembers hrest⟩
        · cases h

variable (hscalar : ∀ {cs : List Char} {r : Value × List Char}, readScalar cs = .ok r → P r.1)
  (hstr : ∀ s, P (.str s)) (hlist : ∀ {items : List Value}, (∀ v ∈ items, P v) → P (.list items))
  (hobject : ∀ {members : List (String × Value)}, (∀ member ∈ members, P member.2) →
    P (object members))
include hscalar hstr hlist hobject

theorem readValue_induction
    (hitems : ∀ {cs : List Char} {r : List Value × List Char}, readItems fuel cs = .ok r →
      ∀ v ∈ r.1, P v)
    (hmembers : ∀ {cs : List Char} {r : List (String × Value) × List Char},
      readMembers fuel cs = .ok r → ∀ member ∈ r.1, P member.2)
    {cs : List Char} {r : Value × List Char} (h : readValue (fuel + 1) cs = .ok r) :
    P r.1 := by
  unfold readValue at h
  split at h
  · cases h
  · split at h
    · obtain ⟨name, -, rfl⟩ := map_eq_ok h
      exact hstr _
    · split at h
      · split at h
        · cases h
          exact hlist (List.forall_mem_nil _)
        · obtain ⟨items, hread, rfl⟩ := map_eq_ok h
          exact hlist (hitems hread)
      · split at h
        · split at h
          · cases h
            exact hobject (List.forall_mem_nil _)
          · obtain ⟨members, hread, rfl⟩ := map_eq_ok h
            exact hobject (hmembers hread)
        · exact hscalar h

/-- One fuel bounds all three readers, so that their results are followed together. -/
theorem readers_induction (fuel : Nat) :
    (∀ {cs : List Char} {r : Value × List Char}, readValue fuel cs = .ok r → P r.1) ∧
      (∀ {cs : List Char} {r : List Value × List Char}, readItems fuel cs = .ok r →
        ∀ v ∈ r.1, P v) ∧
      ∀ {cs : List Char} {r : List (String × Value) × List Char}, readMembers fuel cs = .ok r →
        ∀ member ∈ r.1, P member.2 := by
  induction fuel with
  | zero => exact ⟨nofun, nofun, nofun⟩
  | succ fuel ih =>
      obtain ⟨hvalue, hitems, hmembers⟩ := ih
      exact ⟨readValue_induction hscalar hstr hlist hobject hitems hmembers,
        readItems_induction hvalue hitems, readMembers_induction hvalue hmembers⟩

/-- What holds of scalars and of texts, and of lists and objects of which it holds throughout, holds
of every value that is read. -/
theorem read_induction {text : List Char} {v : Value} (h : read text = .ok v) : P v := by
  unfold read at h
  split at h
  · cases h
  · split at h
    · cases h
    · next hread =>
      split at h
      · cases h
        exact (readers_induction hscalar hstr hlist hobject _).1 hread
      · cases h

end Readers

theorem isJson_of_read {text : List Char} {v : Value} (h : read text = .ok v) : v.IsJson :=
  read_induction (readScalar_induction .null .bool .float fun _ => .int _) .str .list
    (fun hmembers => .object (Table.overlay_induction nofun hmembers)) h

end Json

end HighlightGraph
