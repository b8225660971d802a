import HighlightGraph.Number.Double
/-!
# Shortest decimal texts of doubles

The fewest decimal digits that read back as the same double, and their layout: positional from
`10 ^ -4` to below `10 ^ 16`, with an exponent outside. Of several candidates with the fewest
digits the nearest is taken, and of two equally near ones the even one.
-/

namespace HighlightGraph

namespace Magnitude

def unscaleTen (ratio : Nat × Nat) (exponent : Int) : Nat × Nat :=
  (ratio.1 * Nat.pow 10 (-exponent).toNat, ratio.2 * Nat.pow 10 exponent.toNat)

/-- The exponent of the power of ten that is the last one not above a positive magnitude. -/
def decimalExponent (m : Magnitude) : Int :=
  let (num, den) := m.ratio
  let estimate : Int := ((num.log2 : Int) - den.log2) * 1233 / 4096
  let notAbove := fun exponent : Int =>
    let scaled := unscaleTen (num, den) exponent
    scaled.2 ≤ scaled.1
  if notAbove (estimate + 1) then estimate + 1
  else if notAbove estimate then estimate
  else estimate - 1

/-- The ends of the interval of the reals that round to a magnitude, in quarters of the unit of
its last binary digit. -/
def interval (m : Magnitude) : Nat × Nat :=
  let below := if m.significand = Nat.pow 2 52 ∧ Nat.pow 2 53 ≤ m.rank then 1 else 2
  (4 * m.significand - below, 4 * m.significand + 2)

/-- Whether `candidate * 10 ^ exponent` reads back as the magnitude. The ends of the interval do
so when the significand is even. -/
def readsBack (m : Magnitude) (candidate : Nat) (exponent : Int) : Bool :=
  let (low, high) := m.interval
  let (unit, scale) := unscaleTen
    (Nat.pow 2 (m.exponent - 2).toNat, Nat.pow 2 (2 - m.exponent).toNat) exponent
  let value := candidate * scale
  if m.significand % 2 = 0 then low * unit ≤ value && value ≤ high * unit
  else low * unit < value && value < high * unit

def onGrid? (m : Magnitude) (exponent : Int) : Option Nat :=
  let (num, den) := unscaleTen m.ratio exponent
  let lower := num / den
  match m.readsBack lower exponent, m.readsBack (lower + 1) exponent with
  | true, true => some (roundQuotient num den)
  | true, false => some lower
  | false, true => some (lower + 1)
  | false, false => none

def firstOnGrid (m : Magnitude) : (grids : Nat) → (exponent : Int) → Nat × Int
  | 0, exponent => (m.ratio.1, exponent)
  | grids + 1, exponent =>
    match m.onGrid? exponent with
    | some digits => (digits, exponent)
    | none => m.firstOnGrid grids (exponent - 1)

/-- The shortest decimal of a positive magnitude, `digits * 10 ^ exponent`. Seventeen digits are
always enough. -/
def shortest (m : Magnitude) : Nat × Int :=
  m.firstOnGrid 17 m.decimalExponent

end Magnitude

/-- A decimal text with its point `point` digits after the first digit of `digits`: positional
where the number lies between `10 ^ -4` and `10 ^ 16`. -/
def layoutDecimal (digits : List Char) (point : Int) : List Char :=
  if -4 < point ∧ point ≤ 16 then
    let whole := digits.take point.toNat ++ List.replicate (point.toNat - digits.length) '0'
    let fraction := List.replicate (-point).toNat '0' ++ digits.drop point.toNat
    (if whole.isEmpty then ['0'] else whole) ++
      '.' :: (if fraction.isEmpty then ['0'] else fraction)
  else
    let exponent := point - 1
    let exponentDigits := Nat.toDigits 10 exponent.natAbs
    let fraction := digits.drop 1
    digits.take 1 ++ (if fraction.isEmpty then [] else '.' :: fraction) ++
      'e' :: (if exponent < 0 then '-' else '+') ::
      (List.replicate (2 - exponentDigits.length) '0' ++ exponentDigits)

def Magnitude.text (m : Magnitude) : List Char :=
  if m.rank = 0 then ['0', '.', '0']
  else
    let (digits, exponent) := m.shortest
    let chars := Nat.toDigits 10 digits
    let significant := (chars.reverse.dropWhile (· = '0')).reverse
    layoutDecimal significant (chars.length + exponent)

/-- How the doubles that are no number are written. -/
structure DoubleSpelling where
  infinity : String
  nan : String

def Double.text (spelling : DoubleSpelling) : Double → String
  | .finite negative m => String.ofList ((if negative then ['-'] else []) ++ m.text)
  | .infinite negative => (if negative then "-" else "") ++ spelling.infinity
  | .nan _ => spelling.nan

end HighlightGraph
