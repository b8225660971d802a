import HighlightGraph.Proofs.Options
/-!
# Options in canonical form

A setting can be given under two spellings, and a map can give it under both. What the options of
a map hold for a setting is decided by the last value that the map gives for it under either
spelling, so the spelling, the unknown keys and the order in which different settings come are all
one, and options written out as a map are read back as they are.
-/

namespace HighlightGraph

/-! ## Spellings -/

namespace Setting

/-- A key with the second spelling of a setting put into the first. -/
def canonicalKey (k : String) : String :=
  (all.find? fun setting => setting.alias? = some k).elim k key

def isKnown (k : String) : Bool :=
  all.any fun setting => canonicalKey k = setting.key

/-- The values that fields give for a setting under either spelling, in order. -/
def valuesIn (setting : Setting) (fields : List (String × Value)) : List Value :=
  (fields.filter fun field => canonicalKey field.1 = setting.key).map Prod.snd

theorem mem_all (setting : Setting) : setting ∈ all := by
  cases setting <;> decide

theorem key_injective : Function.Injective key := by
  have h : ∀ s ∈ all, ∀ t ∈ all, s.key = t.key → s = t := by decide +kernel
  exact fun s t => h s (mem_all s) t (mem_all t)

theorem canonicalKey_of_alias? {setting : Setting} {k : String} (h : setting.alias? = some k) :
    canonicalKey k = setting.key := by
  have hall : ∀ s ∈ all, ∀ k ∈ s.alias?, canonicalKey k = s.key := by decide +kernel
  exact hall setting (mem_all setting) k h

theorem canonicalKey_key (setting : Setting) : canonicalKey setting.key = setting.key := by
  have hall : ∀ s ∈ all, canonicalKey s.key = s.key := by decide +kernel
  exact hall setting (mem_all setting)

/-- A key that is no second spelling is its own canonical form. -/
theorem canonicalKey_eq_self_or (k : String) :
    canonicalKey k = k ∨ ∃ setting : Setting, setting.alias? = some k := by
  unfold canonicalKey
  cases hfound : all.find? fun setting => setting.alias? = some k with
  | none => exact Or.inl rfl
  | some setting => exact Or.inr ⟨setting, by simpa using List.find?_some hfound⟩

theorem canonicalKey_canonicalKey (k : String) :
    canonicalKey (canonicalKey k) = canonicalKey k := by
  rcases canonicalKey_eq_self_or k with h | ⟨setting, halias⟩
  · rw [h, h]
  · rw [canonicalKey_of_alias? halias, canonicalKey_key]

/-- A key is a spelling of a setting if its canonical form is the key of the setting. -/
theorem ofSpelling?_eq_some_iff {k : String} {setting : Setting} :
    ofSpelling? k = some setting ↔ canonicalKey k = setting.key := by
  have hspelled : ∀ s, ofSpelling? k = some s → canonicalKey k = s.key := by
    intro s hs
    have hmatch : s.key = k ∨ s.alias? = some k := by simpa using List.find?_some hs
    rcases hmatch with rfl | halias
    · exact canonicalKey_key s
    · exact canonicalKey_of_alias? halias
  constructor
  · exact hspelled setting
  · intro h
    cases hfound : ofSpelling? k with
    | some found => rw [key_injective ((hspelled found hfound).symm.trans h)]
    | none =>
        -- The key is a spelling of some setting, so the search cannot fail.
        have hnone := List.find?_eq_none.1 hfound
        exfalso
        rcases canonicalKey_eq_self_or k with hself | ⟨s, halias⟩
        · exact hnone setting (mem_all setting) (by simp [← h, hself])
        · exact hnone s (mem_all s) (by simp [halias])

theorem isKnown_of_canonicalKey_eq {k : String} {setting : Setting}
    (h : canonicalKey k = setting.key) : isKnown k = true :=
  List.any_eq_true.2 ⟨setting, mem_all setting, decide_eq_true h⟩

/-! ## The values given for a setting -/

theorem valuesIn_append (setting : Setting) (fields later : List (String × Value)) :
    setting.valuesIn (fields ++ later) = setting.valuesIn fields ++ setting.valuesIn later := by
  rw [valuesIn, List.filter_append, List.map_append]
  rfl

theorem valuesIn_singleton_of_eq {setting : Setting} {field : String × Value}
    (h : canonicalKey field.1 = setting.key) : setting.valuesIn [field] = [field.2] := by
  rw [valuesIn, List.filter_cons_of_pos (by simpa using h)]
  rfl

theorem valuesIn_singleton_of_ne {setting : Setting} {field : String × Value}
    (h : canonicalKey field.1 ≠ setting.key) : setting.valuesIn [field] = [] := by
  rw [valuesIn, List.filter_cons_of_neg (by simpa using h)]
  rfl

theorem valuesIn_filterKeys_isKnown (setting : Setting) (m : Attributes) :
    setting.valuesIn (m.filterKeys isKnown).entries = setting.valuesIn m.entries := by
  unfold valuesIn Table.filterKeys
  rw [List.filter_filter]
  congr 1
  apply List.filter_congr
  intro field _
  by_cases h : canonicalKey field.1 = setting.key
  · simp [h, isKnown_of_canonicalKey_eq h]
  · simp [h]

/-- A map whose keys are put into canonical form keeps the last value of every setting. -/
theorem valuesIn_canonical (setting : Setting) (fields : List (String × Value)) :
    setting.valuesIn
        (Table.ofList (fields.map fun field => (canonicalKey field.1, field.2))).entries =
      (setting.valuesIn fields).getLast?.toList := by
  let canonical := fields.map fun field => (canonicalKey field.1, field.2)
  -- The keys of the table are canonical, so they are told apart without their spelling.
  have hkeys : ∀ field ∈ (Table.ofList canonical).entries, canonicalKey field.1 = field.1 := by
    intro field hfield
    obtain ⟨given, -, rfl⟩ := List.mem_map.1 (Table.mem_of_mem_ofList hfield)
    exact canonicalKey_canonicalKey given.1
  calc setting.valuesIn (Table.ofList canonical).entries
      = ((Table.ofList canonical).entries.filter fun field => field.1 = setting.key).map
          Prod.snd := by
        unfold valuesIn
        congr 1
        apply List.filter_congr
        intro field hfield
        rw [hkeys field hfield]
    _ = ((Table.ofList canonical).get? setting.key).toList := Table.filter_entries_eq _ _
    _ = ((canonical.filter fun field => field.1 = setting.key).map Prod.snd).getLast?.toList := by
        rw [Table.get?_ofList]
    _ = (setting.valuesIn fields).getLast?.toList := by
        rw [List.filter_map, List.map_map]
        rfl

end Setting

/-! ## Taking fields in -/

namespace Options

open Setting

variable {o taken : Options} {field : String × Value} {fields : List (String × Value)}

def takeField (o : Options) (field : String × Value) : Except Misfit Options :=
  o.take (.str field.1, field.2)

theorem takeField_of_eq {setting : Setting} (h : canonicalKey field.1 = setting.key) :
    o.takeField field = (setting.prepare field.2).map (o.set setting) := by
  have hspelled : ofSpelling? field.1 = some setting := ofSpelling?_eq_some_iff.2 h
  simp only [takeField, take, hspelled]

theorem takeField_of_ne (h : ∀ setting : Setting, canonicalKey field.1 ≠ setting.key) :
    o.takeField field = .ok o := by
  have hspelled : ofSpelling? field.1 = none := by
    rw [Option.eq_none_iff_forall_ne_some]
    exact fun setting => mt ofSpelling?_eq_some_iff.1 (h setting)
  simp only [takeField, take, hspelled]

theorem ofValue_ofFields (fields : List (String × Value)) :
    ofValue (.ofFields fields) = fields.foldlM takeField defaults := by
  cases fields with
  | nil => rfl
  | cons field rest =>
      have hentries : ofValue (.ofFields (field :: rest)) =
          ofEntries ((field :: rest).map fun field => (.str field.1, field.2)) := if_pos rfl
      rw [hentries, ofEntries, List.foldlM_map]
      rfl

/-- A field is taken in if the setting that it spells, if any, takes its value. -/
theorem isOk_takeField (o : Options) (field : String × Value) :
    (o.takeField field).isOk = true ↔
      ∀ setting : Setting, ∀ v ∈ setting.valuesIn [field], (setting.prepare v).isOk = true := by
  by_cases hspelled : ∃ setting : Setting, canonicalKey field.1 = setting.key
  · obtain ⟨setting, hsetting⟩ := hspelled
    rw [takeField_of_eq hsetting, isOk_map]
    constructor
    · intro h other v hv
      by_cases hother : canonicalKey field.1 = other.key
      · rw [valuesIn_singleton_of_eq hother, List.mem_singleton] at hv
        rwa [hv, key_injective (hother.symm.trans hsetting)]
      · rw [valuesIn_singleton_of_ne hother] at hv
        cases hv
    · intro h
      refine h setting field.2 ?_
      rw [valuesIn_singleton_of_eq hsetting]
      exact List.mem_singleton_self _
  · rw [not_exists] at hspelled
    rw [takeField_of_ne hspelled]
    refine iff_of_true rfl fun setting v hv => ?_
    rw [valuesIn_singleton_of_ne (hspelled setting)] at hv
    cases hv

/-- What one field does: the setting that it spells holds its value, and the others stay. -/
theorem value_of_takeField (h : o.takeField field = .ok taken) (setting : Setting) :
    (setting.valuesIn [field]).getLast?.elim (.ok (o.value setting)) setting.prepare =
      .ok (taken.value setting) := by
  by_cases hsetting : canonicalKey field.1 = setting.key
  · rw [takeField_of_eq hsetting] at h
    obtain ⟨prepared, hprepared, rfl⟩ := map_eq_ok h
    rw [valuesIn_singleton_of_eq hsetting]
    exact hprepared.trans (congrArg Except.ok (if_pos rfl).symm)
  · rw [valuesIn_singleton_of_ne hsetting]
    apply congrArg Except.ok
    by_cases hspelled : ∃ other : Setting, canonicalKey field.1 = other.key
    · obtain ⟨other, hother⟩ := hspelled
      rw [takeField_of_eq hother] at h
      obtain ⟨prepared, -, rfl⟩ := map_eq_ok h
      have hne : setting ≠ other := by
        rintro rfl
        exact hsetting hother
      exact (if_neg hne).symm
    · rw [takeField_of_ne (not_exists.1 hspelled)] at h
      cases h
      rfl

theorem isOk_foldlM_takeField (o : Options) (fields : List (String × Value)) :
    (fields.foldlM takeField o).isOk = true ↔
      ∀ setting : Setting, ∀ v ∈ setting.valuesIn fields, (setting.prepare v).isOk = true := by
  induction fields generalizing o with
  | nil => exact iff_of_true rfl nofun
  | cons field rest ih =>
      have hvalues : ∀ setting : Setting, setting.valuesIn (field :: rest) =
          setting.valuesIn [field] ++ setting.valuesIn rest :=
        fun setting => valuesIn_append setting [field] rest
      have hfirst := isOk_takeField o field
      simp only [hvalues, List.mem_append, or_imp, forall_and]
      rw [List.foldlM_cons, ← hfirst]
      cases o.takeField field with
      | error e => exact iff_of_false nofun fun h => nomatch h.1
      | ok next => exact (ih next).trans (and_iff_right rfl).symm

theorem value_of_foldlM_takeField (h : fields.foldlM takeField o = .ok taken)
    (setting : Setting) :
    (setting.valuesIn fields).getLast?.elim (.ok (o.value setting)) setting.prepare =
      .ok (taken.value setting) := by
  induction fields using List.reverseRecOn generalizing taken with
  | nil =>
      cases h
      rfl
  | append_singleton fields field ih =>
      rw [List.foldlM_append] at h
      obtain ⟨next, hnext, h⟩ := bind_eq_ok h
      rw [List.foldlM_cons] at h
      obtain ⟨last, hlast, h⟩ := bind_eq_ok h
      cases h
      have hstep := value_of_takeField hlast setting
      rw [valuesIn_append, List.getLast?_append]
      cases hfield : (setting.valuesIn [field]).getLast? with
      | none =>
          rw [hfield] at hstep
          exact (ih hnext).trans hstep
      | some v =>
          rw [hfield] at hstep
          exact hstep

/-- A map of options is taken in if every value that it gives for a setting is, and then the last
one decides. -/
theorem ofValue_ofFields_eq_ok_iff :
    ofValue (.ofFields fields) = .ok o ↔
      (∀ setting : Setting, ∀ v ∈ setting.valuesIn fields, (setting.prepare v).isOk = true) ∧
      ∀ setting : Setting, (setting.valuesIn fields).getLast?.elim (.ok setting.default)
        setting.prepare = .ok (o.value setting) := by
  rw [ofValue_ofFields]
  constructor
  · intro h
    refine ⟨(isOk_foldlM_takeField defaults fields).1 ?_, value_of_foldlM_takeField h⟩
    rw [h]
    rfl
  · rintro ⟨hok, hvalue⟩
    obtain ⟨taken, htaken⟩ := exists_ok_of_isOk ((isOk_foldlM_takeField defaults fields).2 hok)
    rw [htaken]
    apply congrArg Except.ok
    apply ext
    intro setting
    exact Except.ok.inj ((value_of_foldlM_takeField htaken setting).symm.trans (hvalue setting))

/-- Fields that give no new values, and the same last ones, make the same options. -/
theorem ofValue_ofFields_congr {given : List (String × Value)}
    (h : ofValue (.ofFields given) = .ok o)
    (hsubset : ∀ setting : Setting, setting.valuesIn fields ⊆ setting.valuesIn given)
    (hlast : ∀ setting : Setting,
      (setting.valuesIn fields).getLast? = (setting.valuesIn given).getLast?) :
    ofValue (.ofFields fields) = .ok o := by
  obtain ⟨hok, hvalue⟩ := ofValue_ofFields_eq_ok_iff.1 h
  refine ofValue_ofFields_eq_ok_iff.2 ⟨?_, ?_⟩
  · exact fun setting v hv => hok setting v (hsubset setting hv)
  · intro setting
    rw [hlast]
    exact hvalue setting

/-! ## Options written out -/

theorem valuesIn_toFields (o : Options) (setting : Setting) :
    setting.valuesIn o.toFields = [o.value setting] := by
  have hall : ∀ s ∈ all, (all.filter fun other => canonicalKey other.key = s.key) = [s] := by
    decide +kernel
  have hsetting : (all.filter fun other => canonicalKey other.key = setting.key) = [setting] :=
    hall setting (mem_all setting)
  unfold valuesIn toFields
  rw [List.filter_map, List.map_map]
  exact congrArg (List.map o.value) hsetting

/-- What a setting holds is made into itself. -/
theorem prepare_value_of_ofValue {v : Value} (h : ofValue v = .ok o) (setting : Setting) :
    setting.prepare (o.value setting) = .ok (o.value setting) := by
  have hholds : setting.kind.Holds (o.value setting) :=
    forall_value_ofValue (fun _ _ _ => holds_prepare) shaped_defaults h setting
  rw [prepare]
  cases hkind : setting.kind with
  | attributes =>
      rw [hkind] at hholds
      obtain ⟨attributes, heq⟩ := hholds
      rw [heq, Attributes.recognized_toValue, mapValues_asMarkup_of_ofValue h hkind heq]
      rfl
  | items =>
      rw [hkind] at hholds
      obtain ⟨items, heq⟩ := hholds
      rw [heq]
      cases items <;> rfl
  | fragments =>
      rw [hkind] at hholds
      obtain ⟨entries, heq⟩ := hholds
      rw [heq]
      cases entries <;> rfl
  | plain => rfl

theorem ofValue_toFields {v : Value} (h : ofValue v = .ok o) :
    ofValue (.ofFields o.toFields) = .ok o := by
  rw [ofValue_ofFields_eq_ok_iff]
  constructor
  · intro setting w hw
    rw [valuesIn_toFields, List.mem_singleton] at hw
    rw [hw, prepare_value_of_ofValue h]
    rfl
  · intro setting
    rw [valuesIn_toFields]
    exact prepare_value_of_ofValue h setting

/-- The options of a map hold, for every setting, the last value that the map gives for it under
either spelling, or the default. So they do not change when the keys are put into their canonical
form, when unknown keys are dropped or when the values of different settings change places; and
written out as a map they are read back. -/
theorem resolution_canonical {m : Attributes} {o : Options}
    (h : ofValue (.ofFields m.entries) = .ok o) :
    (∀ setting : Setting, (setting.valuesIn m.entries).getLast?.elim (.ok setting.default)
      setting.prepare = .ok (o.value setting)) ∧
    ofValue (.ofFields (Table.ofList
      (m.entries.map fun field => (canonicalKey field.1, field.2))).entries) = .ok o ∧
    ofValue (.ofFields (m.filterKeys isKnown).entries) = .ok o ∧
    (∀ reordered : Attributes, (∀ setting : Setting,
      setting.valuesIn reordered.entries = setting.valuesIn m.entries) →
      ofValue (.ofFields reordered.entries) = .ok o) ∧
    ofValue (.ofFields o.toFields) = .ok o := by
  have hsame : ∀ fields : List (String × Value),
      (∀ setting : Setting, setting.valuesIn fields = setting.valuesIn m.entries) →
      ofValue (.ofFields fields) = .ok o := by
    intro fields hfields
    apply ofValue_ofFields_congr h
    · exact fun setting => hfields setting ▸ List.Subset.refl _
    · exact fun setting => congrArg List.getLast? (hfields setting)
  refine ⟨(ofValue_ofFields_eq_ok_iff.1 h).2, ?_, ?_, fun reordered => hsame _, ofValue_toFields h⟩
  · apply ofValue_ofFields_congr h
    · intro setting v hv
      rw [valuesIn_canonical, Option.mem_toList] at hv
      exact List.mem_of_getLast? hv
    · intro setting
      rw [valuesIn_canonical]
      cases (setting.valuesIn m.entries).getLast? <;> rfl
  · exact hsame _ fun setting => valuesIn_filterKeys_isKnown setting m

/-- A setting under both of its spellings, a text that is taken apart, and an unknown key. -/
theorem resolution_of_both_spellings :
    ∃ (m reordered : Attributes) (o : Options),
      m.keys = ["groupNode", "tint", "sameRank", "group_node"] ∧
      reordered.keys = ["sameRank", "groupNode", "group_node", "tint"] ∧
      ofValue (.ofFields m.entries) = .ok o ∧ o.value .groupNode = .map [] ∧
      o.value .sameRank = .list [.str "a", .str "b"] ∧
      ofValue (.ofFields (Table.ofList
        (m.entries.map fun field => (canonicalKey field.1, field.2))).entries) = .ok o ∧
      ofValue (.ofFields (m.filterKeys isKnown).entries) = .ok o ∧
      ofValue (.ofFields reordered.entries) = .ok o ∧
      ofValue (.ofFields o.toFields) = .ok o := by
  let shape : Value := .ofFields [("shape", .str "<<oval>>")]
  let m : Attributes := ⟨[("groupNode", shape), ("tint", .bool true), ("sameRank", .str "ab"),
    ("group_node", .null)], by decide⟩
  let reordered : Attributes := ⟨[("sameRank", .str "ab"), ("groupNode", shape),
    ("group_node", .null), ("tint", .bool true)], by decide⟩
  obtain ⟨o, ho⟩ : ∃ o, ofValue (.ofFields m.entries) = .ok o := ⟨_, rfl⟩
  obtain ⟨hvalue, hcanonical, hknown, hreordered, hback⟩ := resolution_canonical ho
  have hvalues : ∀ setting : Setting,
      setting.valuesIn reordered.entries = setting.valuesIn m.entries := by
    intro setting
    cases setting <;> rfl
  refine ⟨m, reordered, o, rfl, rfl, ho, ?_, ?_, hcanonical, hknown,
    hreordered reordered hvalues, hback⟩
  · have hlast : (groupNode.valuesIn m.entries).getLast? = some .null := rfl
    have hgroup := hvalue .groupNode
    rw [hlast] at hgroup
    exact (Except.ok.inj hgroup).symm
  · have hlast : (sameRank.valuesIn m.entries).getLast? = some (.str "ab") := rfl
    have hrank := hvalue .sameRank
    rw [hlast] at hrank
    exact (Except.ok.inj hrank).symm

end Options

end HighlightGraph
