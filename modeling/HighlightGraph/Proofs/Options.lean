import HighlightGraph.Options
import HighlightGraph.Proofs.Attributes.Recognized
/-!
# Options made from a map

What a map of options makes of its settings: each holds what its kind asks for. Those that hold
attributes hold readable ones, with markup told from text.
-/

namespace HighlightGraph

/-- What a setting of a kind holds once a given value has been made into it. -/
def SettingKind.Holds : SettingKind → Value → Prop
  | attributes, v => ∃ attributes : Attributes, v = attributes.toValue
  | items, v => ∃ items, v = .list items
  | fragments, v => ∃ entries, v = .map entries
  | plain, _ => True

theorem Setting.holds_prepare {setting : Setting} {v prepared : Value}
    (h : setting.prepare v = .ok prepared) : setting.kind.Holds prepared := by
  rw [prepare] at h
  cases hkind : setting.kind with
  | attributes =>
      rw [hkind] at h
      obtain ⟨attributes, -, rfl⟩ := map_eq_ok h
      exact ⟨attributes, rfl⟩
  | items =>
      simp only [hkind] at h
      split at h
      · obtain ⟨items, -, rfl⟩ := map_eq_ok h
        exact ⟨items, rfl⟩
      · cases h
        exact ⟨[], rfl⟩
  | fragments =>
      simp only [hkind] at h
      split at h
      · obtain ⟨entries, -, rfl⟩ := map_eq_ok h
        exact ⟨entries, rfl⟩
      · cases h
        exact ⟨[], rfl⟩
  | plain => trivial

namespace Options

def Shaped (o : Options) : Prop :=
  ∀ setting : Setting, setting.kind.Holds (o.value setting)

def Readable (o : Options) : Prop :=
  ∀ setting : Setting, setting.kind = .attributes →
    ∃ attributes : Attributes, o.value setting = attributes.toValue

theorem Shaped.readable {o : Options} (h : o.Shaped) : o.Readable := by
  intro setting hkind
  have hsetting := h setting
  rwa [hkind] at hsetting

theorem shaped_defaults : defaults.Shaped := by
  have hfields : ∀ fields : List (String × Value), (fields.map Prod.fst).Nodup →
      ∃ attributes : Attributes, Value.ofFields fields = attributes.toValue :=
    fun fields hnodup => ⟨⟨fields, hnodup⟩, rfl⟩
  intro setting
  cases setting
  case graph => exact hfields [] List.nodup_nil
  case sameRank => exact ⟨[], rfl⟩
  case groupRaw => exact ⟨[], rfl⟩
  case group | node | edge | groupNode | groupEdge | missingNode => exact hfields _ (by decide)
  all_goals trivial

/-! ## What holds of every setting -/

section ForallValue

variable {P : Setting → Value → Prop}
  (hprepare : ∀ setting v prepared, setting.prepare v = .ok prepared → P setting prepared)
include hprepare

theorem forall_value_take {o taken : Options} (h : ∀ setting, P setting (o.value setting))
    {entry : Value × Value} (htaken : o.take entry = .ok taken) :
    ∀ setting, P setting (taken.value setting) := by
  unfold take at htaken
  split at htaken
  · split at htaken
    · next setting _ =>
      obtain ⟨prepared, hprepared, rfl⟩ := map_eq_ok htaken
      intro other
      by_cases hother : other = setting
      · subst hother
        rw [show (o.set other prepared).value other = prepared from if_pos rfl]
        exact hprepare other _ _ hprepared
      · rw [show (o.set setting prepared).value other = o.value other from if_neg hother]
        exact h other
    · cases htaken
      exact h
  · cases htaken
    exact h

theorem forall_value_foldlM_take {o taken : Options} (h : ∀ setting, P setting (o.value setting))
    {entries : List (Value × Value)} (htaken : entries.foldlM take o = .ok taken) :
    ∀ setting, P setting (taken.value setting) := by
  induction entries generalizing o with
  | nil =>
      cases htaken
      exact h
  | cons entry rest ih =>
      rw [List.foldlM_cons] at htaken
      obtain ⟨next, hnext, htaken⟩ := bind_eq_ok htaken
      exact ih (forall_value_take hprepare h hnext) htaken

variable (hdefault : ∀ setting : Setting, P setting setting.default)
include hdefault

theorem forall_value_ofEntries {entries : List (Value × Value)} {o : Options}
    (h : ofEntries entries = .ok o) : ∀ setting, P setting (o.value setting) :=
  forall_value_foldlM_take hprepare (o := defaults) hdefault h

theorem forall_value_ofValue {v : Value} {o : Options} (h : ofValue v = .ok o) :
    ∀ setting, P setting (o.value setting) := by
  unfold ofValue at h
  split at h
  · split at h
    · exact forall_value_ofEntries hprepare hdefault h
    · cases h
  · cases h
    exact hdefault

end ForallValue

theorem shaped_ofEntries {entries : List (Value × Value)} {o : Options}
    (h : ofEntries entries = .ok o) : o.Shaped :=
  forall_value_ofEntries (fun _ _ _ => Setting.holds_prepare) shaped_defaults h

theorem readable_ofValue {v : Value} {o : Options} (h : ofValue v = .ok o) : o.Readable :=
  Shaped.readable (forall_value_ofValue (fun _ _ _ => Setting.holds_prepare) shaped_defaults h)

/-- The attributes that a map of options sets, and those of the defaults, have their markup told
from text. -/
theorem mapValues_asMarkup_of_ofValue {v : Value} {o : Options} (h : ofValue v = .ok o)
    {setting : Setting} (hkind : setting.kind = .attributes) {given : Attributes}
    (hgiven : o.value setting = given.toValue) : given.mapValues Value.asMarkup = given := by
  let Told : Setting → Value → Prop := fun setting v => setting.kind = .attributes →
    ∃ attributes, Attributes.recognized v = .ok attributes ∧ v = attributes.toValue
  have hprepare : ∀ setting v prepared, Setting.prepare setting v = .ok prepared →
      Told setting prepared := by
    intro setting v prepared hprepared hkind
    rw [Setting.prepare, hkind] at hprepared
    obtain ⟨attributes, hattributes, rfl⟩ := map_eq_ok hprepared
    refine ⟨attributes, ?_, rfl⟩
    rw [Attributes.recognized_toValue, Attributes.mapValues_asMarkup_of_recognized hattributes]
  have hdefault : ∀ setting : Setting, Told setting setting.default := by
    intro setting hkind
    cases setting
    case graph => exact ⟨.empty, rfl, rfl⟩
    case group | node | edge | groupNode | groupEdge | missingNode => exact ⟨_, rfl, rfl⟩
    all_goals cases hkind
  obtain ⟨attributes, hattributes, hv⟩ := forall_value_ofValue hprepare hdefault h setting hkind
  rw [Attributes.toValue_injective (hgiven.symm.trans hv)]
  exact Attributes.mapValues_asMarkup_of_recognized hattributes

theorem Readable.recognized {o : Options} (h : o.Readable) {setting : Setting}
    (hkind : setting.kind = .attributes) :
    ∃ attributes, Attributes.recognized (o.value setting) = .ok attributes := by
  obtain ⟨attributes, heq⟩ := h setting hkind
  rw [heq]
  exact ⟨_, Attributes.recognized_toValue attributes⟩

end Options

end HighlightGraph
