/-!
# Floating-point numbers of 64 bits

The doubles as exact values. The magnitudes of the finite ones are numbered in increasing order,
zero being number 0, so that rounding and neighbours are arithmetic on these numbers.
-/

namespace HighlightGraph

/-- The magnitude of a finite double, given by its rank in increasing order. -/
structure Magnitude where
  rank : Nat
  rank_lt : rank < 2047 * Nat.pow 2 52
deriving DecidableEq

namespace Magnitude

def zero : Magnitude := ⟨0, by decide⟩

/-- The power of two by which the significand is scaled. -/
def exponent (m : Magnitude) : Int :=
  if m.rank < Nat.pow 2 52 then -1074 else (m.rank / Nat.pow 2 52 : Nat) - 1075

/-- The integer below `2 ^ 53` that the exponent scales. -/
def significand (m : Magnitude) : Nat :=
  if m.rank < Nat.pow 2 52 then m.rank else m.rank % Nat.pow 2 52 + Nat.pow 2 52

def ratio (m : Magnitude) : Nat × Nat :=
  (m.significand * Nat.pow 2 m.exponent.toNat, Nat.pow 2 (-m.exponent).toNat)

end Magnitude

/-- A double. A not-a-number carries a mark that tells it from others of its kind. -/
inductive Double where
  | finite (negative : Bool) (magnitude : Magnitude)
  | infinite (negative : Bool)
  | nan (mark : Nat)
deriving DecidableEq

/-- The integer nearest to a quotient; of two that are equally near, the even one. -/
def roundQuotient (num den : Nat) : Nat :=
  let quotient := num / den
  let rest := num % den
  if 2 * rest < den then quotient
  else if den < 2 * rest then quotient + 1
  else quotient + quotient % 2

namespace Double

def isZero : Double → Bool
  | finite _ m => m.rank == 0
  | _ => false

def unscale (num den : Nat) (exponent : Int) : Nat × Nat :=
  (num * Nat.pow 2 (-exponent).toNat, den * Nat.pow 2 exponent.toNat)

/-- The exponent with which the significand of a ratio has 53 binary digits, or the least one. -/
def binaryExponent (num den : Nat) : Int :=
  let least : Int := max ((num.log2 : Int) - den.log2 - 53) (-1074)
  let scaled := unscale num den least
  if scaled.1 / scaled.2 < Nat.pow 2 53 then least else least + 1

def ofRatio (negative : Bool) (num den : Nat) : Double :=
  let exponent := binaryExponent num den
  let scaled := unscale num den exponent
  let rank := (exponent + 1074).toNat * Nat.pow 2 52 + roundQuotient scaled.1 scaled.2
  if h : rank < 2047 * Nat.pow 2 52 then finite negative ⟨rank, h⟩ else infinite negative

/-- The double nearest to `digits * 10 ^ exponent`. Far out, the answer is settled without
computing the power. -/
def ofDecimal (negative : Bool) (digits : Nat) (exponent : Int) : Double :=
  if digits = 0 ∨ exponent < -((digits.log2 : Int) + 400) then finite negative .zero
  else if 400 < exponent then infinite negative
  else ofRatio negative (digits * Nat.pow 10 exponent.toNat) (Nat.pow 10 (-exponent).toNat)

end Double

end HighlightGraph
