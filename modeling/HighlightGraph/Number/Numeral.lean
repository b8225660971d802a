import HighlightGraph.Text.DecimalDigit
import HighlightGraph.Value.Basic
/-!
# Numerals

Numbers as they are written: a sign, digits, a point with digits, an exponent. A numeral without
point and exponent is an integer, any other a double.
-/

namespace HighlightGraph

/-- A numeral, its digits given by their values. -/
structure Numeral where
  negative : Bool
  whole : List Nat
  fraction : Option (List Nat)
  exponent : Option Int

structure OversizedInteger where
  digits : Nat
deriving DecidableEq

def maxIntegerDigits : Nat := 4300

def OversizedInteger.message (n : OversizedInteger) : String :=
  s!"Exceeds the limit ({maxIntegerDigits} digits) for integer string conversion: " ++
    s!"value has {n.digits} digits; use sys.set_int_max_str_digits() to increase the limit"

namespace Numeral

def ofDigits (digits : List Nat) : Nat :=
  digits.foldl (fun n digit => 10 * n + digit) 0

def signed (negative : Bool) (n : Nat) : Int :=
  if negative then -n else n

def value (numeral : Numeral) : Except OversizedInteger Value :=
  match numeral.fraction, numeral.exponent with
  | none, none =>
    if maxIntegerDigits < numeral.whole.length then .error ⟨numeral.whole.length⟩
    else .ok (.int (signed numeral.negative (ofDigits numeral.whole)))
  | fraction, exponent =>
    let places := fraction.getD []
    .ok (.float (.ofDecimal numeral.negative (ofDigits (numeral.whole ++ places))
      (exponent.getD 0 - places.length)))

def splitDigits (isDigit : Char → Bool) (cs : List Char) : List Nat × List Char :=
  ((cs.takeWhile isDigit).filterMap Text.digit?, cs.dropWhile isDigit)

def readMinus (cs : List Char) : Bool × List Char :=
  match cs with
  | '-' :: rest => (true, rest)
  | _ => (false, cs)

def readSign (cs : List Char) : Bool × List Char :=
  match cs with
  | '-' :: rest => (true, rest)
  | '+' :: rest => (false, rest)
  | _ => (false, cs)

/-- Reads an exponent, if a whole one stands at the front. -/
def readExponent (isDigit : Char → Bool) (cs : List Char) : Option Int × List Char :=
  match cs with
  | [] => (none, cs)
  | e :: rest =>
    if e = 'e' ∨ e = 'E' then
      match splitDigits isDigit (readSign rest).2 with
      | ([], _) => (none, cs)
      | (digits, after) => (some (signed (readSign rest).1 (ofDigits digits)), after)
    else (none, cs)

theorem length_splitDigits_le (isDigit : Char → Bool) (cs : List Char) :
    (splitDigits isDigit cs).2.length ≤ cs.length :=
  (List.dropWhile_sublist isDigit).length_le

theorem length_readMinus_le (cs : List Char) : (readMinus cs).2.length ≤ cs.length := by
  unfold readMinus
  split <;> simp

theorem length_readSign_le (cs : List Char) : (readSign cs).2.length ≤ cs.length := by
  unfold readSign
  split <;> simp

theorem length_readExponent_le (isDigit : Char → Bool) (cs : List Char) :
    (readExponent isDigit cs).2.length ≤ cs.length := by
  unfold readExponent
  split
  · exact Nat.le_refl _
  · next e rest =>
    split
    · split
      · exact Nat.le_refl _
      · next digits after _ h =>
        have h₁ := length_splitDigits_le isDigit (readSign rest).2
        have h₂ := length_readSign_le rest
        rw [h] at h₁
        simp only [List.length_cons]
        exact Nat.le_trans h₁ (Nat.le_trans h₂ (Nat.le_succ _))
    · exact Nat.le_refl _

end Numeral

end HighlightGraph
