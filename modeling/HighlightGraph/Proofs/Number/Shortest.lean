import HighlightGraph.Number.Shortest
import Mathlib.Data.List.DropRight
/-!
# The form of decimal texts

The text of a double is a numeral: digits without a needless zero in front, a point with digits, an
exponent with a sign, and one of the last two at least, so that no double looks like an integer.
-/

namespace HighlightGraph

/-! ## Parts of numerals -/

namespace Numeral

def IsDigits (cs : List Char) : Prop := cs ≠ [] ∧ ∀ c ∈ cs, c.isDigit = true

/-- Digits before a point: a zero stands on its own. -/
def IsWhole (cs : List Char) : Prop := IsDigits cs ∧ (cs.head? = some '0' → cs = ['0'])

def IsFraction (cs : List Char) : Prop := cs = [] ∨ ∃ digits, IsDigits digits ∧ cs = '.' :: digits

def IsExponent (cs : List Char) : Prop :=
  cs = [] ∨ ∃ sign digits, (sign = '-' ∨ sign = '+') ∧ IsDigits digits ∧
    cs = 'e' :: sign :: digits

/-- The text of a number that is no integer, without its sign. -/
structure IsDecimal (cs : List Char) : Prop where
  parts : ∃ whole fraction exponent, cs = whole ++ (fraction ++ exponent) ∧ IsWhole whole ∧
    IsFraction fraction ∧ IsExponent exponent ∧ (fraction ≠ [] ∨ exponent ≠ [])

theorem isDigits_zero : IsDigits ['0'] := ⟨List.cons_ne_nil _ _, by simp⟩

theorem isDigit_of_mem_replicate {n : Nat} {c : Char} (h : c ∈ List.replicate n '0') :
    c.isDigit = true := by
  rw [List.eq_of_mem_replicate h]
  rfl

theorem isDigits_toDigits (n : Nat) : IsDigits (Nat.toDigits 10 n) :=
  ⟨Nat.toDigits_ne_nil, fun _ hc => Nat.isDigit_of_mem_toDigits (by decide) (by decide) hc⟩

/-- A positive number does not begin with a zero. -/
theorem head?_toDigits_ne {n : Nat} (h : 0 < n) : (Nat.toDigits 10 n).head? ≠ some '0' := by
  induction n using Nat.strongRecOn with
  | ind n ih =>
    by_cases hsmall : n < 10
    · rw [Nat.toDigits_of_lt_base hsmall]
      have hdigit : ∀ d < 10, 0 < d → [Nat.digitChar d].head? ≠ some '0' := by decide
      exact hdigit n hsmall h
    · have hsplit : Nat.toDigits 10 n = Nat.toDigits 10 (n / 10) ++ Nat.toDigits 10 (n % 10) := by
        rw [Nat.toDigits_append_toDigits (by decide) (by omega) (Nat.mod_lt n (by decide)),
          Nat.div_add_mod]
      rw [hsplit, List.head?_append_of_ne_nil _ Nat.toDigits_ne_nil]
      exact ih (n / 10) (by omega) (by omega)

theorem isWhole_toDigits (n : Nat) : IsWhole (Nat.toDigits 10 n) := by
  refine ⟨isDigits_toDigits n, fun hzero => ?_⟩
  rcases Nat.eq_zero_or_pos n with rfl | hn
  · rfl
  · exact absurd hzero (head?_toDigits_ne hn)

end Numeral

/-! ## Layout -/

section Layout

variable {digits : List Char} (hdigits : Numeral.IsDigits digits)
include hdigits

theorem isFraction_of_places (zeros dropped : Nat) :
    Numeral.IsFraction ('.' :: (if (List.replicate zeros '0' ++ digits.drop dropped).isEmpty then
      ['0'] else List.replicate zeros '0' ++ digits.drop dropped)) := by
  split
  · exact .inr ⟨_, Numeral.isDigits_zero, rfl⟩
  · next hne =>
    refine .inr ⟨_, ⟨fun h => hne (List.isEmpty_iff.2 h), fun c hc => ?_⟩, rfl⟩
    rcases List.mem_append.1 hc with hc | hc
    · exact Numeral.isDigit_of_mem_replicate hc
    · exact hdigits.2 c (List.mem_of_mem_drop hc)

theorem isFraction_of_rest :
    Numeral.IsFraction (if (digits.drop 1).isEmpty then [] else '.' :: digits.drop 1) := by
  split
  · exact .inl rfl
  · next hne =>
    exact .inr ⟨_, ⟨fun h => hne (List.isEmpty_iff.2 h),
      fun c hc => hdigits.2 c (List.mem_of_mem_drop hc)⟩, rfl⟩

variable (hhead : digits.head? ≠ some '0')
include hhead

theorem isWhole_of_places (taken zeros : Nat) (hzeros : taken = 0 → zeros = 0) :
    Numeral.IsWhole (if (digits.take taken ++ List.replicate zeros '0').isEmpty then ['0']
      else digits.take taken ++ List.replicate zeros '0') := by
  obtain ⟨d, ds, rfl⟩ := List.exists_cons_of_ne_nil hdigits.1
  cases taken with
  | zero =>
      rw [hzeros rfl]
      exact ⟨Numeral.isDigits_zero, fun _ => rfl⟩
  | succ n =>
      refine ⟨⟨List.cons_ne_nil _ _, fun c hc => ?_⟩, fun hzero => absurd hzero hhead⟩
      rcases List.mem_append.1 hc with hc | hc
      · exact hdigits.2 c (List.mem_of_mem_take hc)
      · exact Numeral.isDigit_of_mem_replicate hc

theorem isWhole_of_first : Numeral.IsWhole (digits.take 1) := by
  obtain ⟨d, ds, rfl⟩ := List.exists_cons_of_ne_nil hdigits.1
  refine ⟨⟨List.cons_ne_nil _ _, fun c hc => hdigits.2 c (List.mem_of_mem_take hc)⟩, ?_⟩
  exact fun hzero => absurd hzero hhead

theorem isDecimal_layoutDecimal (point : Int) : Numeral.IsDecimal (layoutDecimal digits point) := by
  refine ⟨?_⟩
  unfold layoutDecimal
  split
  · -- Between `10 ^ -4` and `10 ^ 16`, with a point.
    refine ⟨_, _, [], ?_, isWhole_of_places hdigits hhead point.toNat (point.toNat - digits.length)
      (by omega), isFraction_of_places hdigits (-point).toNat point.toNat, .inl rfl,
      .inl (List.cons_ne_nil _ _)⟩
    rw [List.append_nil]
  · -- Outside, with an exponent.
    let exponent := point - 1
    let exponentDigits := Nat.toDigits 10 exponent.natAbs
    refine ⟨_, _, 'e' :: (if exponent < 0 then '-' else '+') ::
        (List.replicate (2 - exponentDigits.length) '0' ++ exponentDigits), ?_,
      isWhole_of_first hdigits hhead, isFraction_of_rest hdigits, .inr ⟨_, _, ?_, ?_, rfl⟩,
      .inr (List.cons_ne_nil _ _)⟩
    · rw [List.append_assoc]
    · split
      · exact .inl rfl
      · exact .inr rfl
    · refine ⟨fun h => Nat.toDigits_ne_nil (List.append_eq_nil_iff.1 h).2, fun c hc => ?_⟩
      rcases List.mem_append.1 hc with hc | hc
      · exact Numeral.isDigit_of_mem_replicate hc
      · exact (Numeral.isDigits_toDigits _).2 c hc

end Layout

/-! ## Shortest digits -/

namespace Magnitude

variable {m : Magnitude}

theorem significand_pos (h : m.rank ≠ 0) : 0 < m.significand := by
  unfold significand
  split
  · exact Nat.pos_of_ne_zero h
  · exact Nat.add_pos_right _ (Nat.pow_pos (by decide))

/-- Zero does not read back as a positive magnitude. -/
theorem readsBack_zero (h : m.rank ≠ 0) (exponent : Int) : m.readsBack 0 exponent = false := by
  have hlow : 0 < m.interval.1 := by
    have hsignificand := significand_pos h
    unfold interval
    dsimp only
    split <;> omega
  have hunit : 0 < (unscaleTen (Nat.pow 2 (m.exponent - 2).toNat,
      Nat.pow 2 (2 - m.exponent).toNat) exponent).1 :=
    Nat.mul_pos (Nat.pow_pos (by decide)) (Nat.pow_pos (by decide))
  have hpos := Nat.mul_pos hlow hunit
  unfold readsBack
  dsimp only
  rw [Nat.zero_mul]
  split
  · rw [Bool.and_eq_false_iff]
    exact .inl (decide_eq_false (Nat.not_le.2 hpos))
  · rw [Bool.and_eq_false_iff]
    exact .inl (decide_eq_false (Nat.not_lt_zero _))

theorem pos_of_readsBack (h : m.rank ≠ 0) {candidate : Nat} {exponent : Int}
    (hback : m.readsBack candidate exponent = true) : 0 < candidate := by
  rcases Nat.eq_zero_or_pos candidate with rfl | hpos
  · rw [readsBack_zero h] at hback
    cases hback
  · exact hpos

theorem le_roundQuotient (num den : Nat) : num / den ≤ roundQuotient num den := by
  unfold roundQuotient
  dsimp only
  split
  · exact Nat.le_refl _
  · split
    · exact Nat.le_succ _
    · exact Nat.le_add_right _ _

theorem onGrid?_pos (h : m.rank ≠ 0) {exponent : Int} {digits : Nat}
    (hdigits : m.onGrid? exponent = some digits) : 0 < digits := by
  unfold onGrid? at hdigits
  dsimp only at hdigits
  split at hdigits
  · next hlower _ =>
    cases hdigits
    exact Nat.lt_of_lt_of_le (pos_of_readsBack h hlower) (le_roundQuotient _ _)
  · next hlower _ =>
    cases hdigits
    exact pos_of_readsBack h hlower
  · cases hdigits
    exact Nat.succ_pos _
  · cases hdigits

theorem firstOnGrid_pos (h : m.rank ≠ 0) (grids : Nat) (exponent : Int) :
    0 < (m.firstOnGrid grids exponent).1 := by
  induction grids generalizing exponent with
  | zero => exact Nat.mul_pos (significand_pos h) (Nat.pow_pos (by decide))
  | succ grids ih =>
      unfold firstOnGrid
      split
      · next hdigits => exact onGrid?_pos h hdigits
      · exact ih (exponent - 1)

theorem isDecimal_text (m : Magnitude) : Numeral.IsDecimal m.text := by
  unfold text
  split
  · exact ⟨['0'], ['.', '0'], [], rfl, ⟨Numeral.isDigits_zero, fun _ => rfl⟩,
      .inr ⟨_, Numeral.isDigits_zero, rfl⟩, .inl rfl, .inl (List.cons_ne_nil _ _)⟩
  · next hrank =>
    have hpos : 0 < m.shortest.1 := firstOnGrid_pos hrank 17 _
    have hfirst := Numeral.head?_toDigits_ne hpos
    -- What is left of the digits without the zeros at their end begins as they do.
    let significant := (Nat.toDigits 10 m.shortest.1).rdropWhile fun c => decide (c = '0')
    have hkept : significant <+: Nat.toDigits 10 m.shortest.1 := List.rdropWhile_prefix _ _
    have hne : significant ≠ [] := by
      intro hempty
      obtain ⟨d, ds, hchars⟩ :=
        List.exists_cons_of_ne_nil (Nat.toDigits_ne_nil (n := m.shortest.1) (b := 10))
      have hzeros := List.rdropWhile_eq_nil_iff.1 hempty
      rw [hchars] at hzeros hfirst
      exact hfirst (congrArg some (of_decide_eq_true (hzeros d List.mem_cons_self)))
    have hdigits : Numeral.IsDigits significant :=
      ⟨hne, fun c hc => (Numeral.isDigits_toDigits _).2 c (hkept.subset hc)⟩
    have hhead : significant.head? ≠ some '0' := by
      obtain ⟨rest, hrest⟩ := hkept
      rwa [← hrest, List.head?_append_of_ne_nil _ hne] at hfirst
    exact isDecimal_layoutDecimal hdigits hhead _

end Magnitude

end HighlightGraph
