import HintCheck.Double

/-!
The shortest decimal text of a double. The reals that round to a number form an interval around
it, whose ends belong to it exactly when the significand is even. Of all decimals in the interval
the ones with the fewest digits are taken, of those the nearest to the number, and of two equally
near ones the larger. The text is always positional.

All comparisons are made between natural numbers, after multiplying by `2 ^ 1076 * 10 ^ 341`.
-/
namespace HintCheck.Double

/-- A decimal `digits * 10 ^ (exponent - 341)`. -/
structure Decimal where
  digits : Nat
  exponent : Nat
deriving DecidableEq, Repr

/-- The interval of reals that round to a number, in units of `1 / (2 ^ 1076 * 10 ^ 341)`. -/
structure Interval where
  low : Nat
  value : Nat
  high : Nat
  closed : Bool

/-- The interval of a finite number. Below a power of two the neighbours are twice as dense. -/
def interval (x : Double) : Interval :=
  let unit := Nat.pow 2 x.place * Nat.pow 10 341
  let gap := if x.fractionBits = 0 ∧ 1 < x.exponentBits then 1 else 2
  { low := (4 * x.significand - gap) * unit
    value := 4 * x.significand * unit
    high := (4 * x.significand + 2) * unit
    closed := x.significand % 2 == 0 }

/-- A decimal in the units of `Interval`. -/
def Decimal.scaled (d : Decimal) : Nat :=
  d.digits * Nat.pow 10 d.exponent * Nat.pow 2 1076

def Interval.holds (i : Interval) (d : Decimal) : Bool :=
  if i.closed then decide (i.low ≤ d.scaled ∧ d.scaled ≤ i.high)
  else decide (i.low < d.scaled ∧ d.scaled < i.high)

/-- The decimal to take on the grid of multiples of `10 ^ (exponent - 341)`, if the interval has
one: of the value's two neighbours the nearer, and the larger when both are equally near. -/
def Interval.nearest? (i : Interval) (exponent : Nat) : Option Decimal :=
  let below : Decimal := ⟨i.value / (Nat.pow 10 exponent * Nat.pow 2 1076), exponent⟩
  let above : Decimal := ⟨below.digits + 1, exponent⟩
  match i.holds below, i.holds above with
  | true, true =>
    if above.scaled - i.value ≤ i.value - below.scaled then some above else some below
  | true, false => some below
  | false, true => some above
  | false, false => none

/-- The exponent of the coarsest grid worth trying: that of the value's first digit. -/
def Interval.leading (i : Interval) : Nat :=
  (Nat.toDigits 10 (i.value / Nat.pow 2 1076)).length - 1

/-- The first decimal found on the grids from `exponent` downwards. -/
def Interval.search (i : Interval) : Nat → Decimal
  | 0 => (i.nearest? 0).getD ⟨i.value / Nat.pow 2 1076, 0⟩
  | exponent + 1 =>
    match i.nearest? (exponent + 1) with
    | some d => d
    | none => i.search exponent

/-- The shortest decimal that reads back as the given finite number, less its sign. -/
def shortest (x : Double) : Decimal :=
  x.interval.search x.interval.leading

/-- The decimal written out, without a point when it is whole. -/
def Decimal.text (d : Decimal) : String :=
  let digits := Nat.toDigits 10 (d.digits * Nat.pow 10 d.exponent)
  let padded := List.replicate (342 - digits.length) '0' ++ digits
  let whole := padded.take (padded.length - 341)
  let fraction := ((padded.drop (padded.length - 341)).reverse.dropWhile (· == '0')).reverse
  if fraction.isEmpty then String.ofList whole
  else String.ofList (whole ++ '.' :: fraction)

/-- The text of a finite number, without a point when it is whole. -/
def finiteText (x : Double) : String :=
  (if x.negative then "-" else "") ++ (if x.isZero then "0" else x.shortest.text)

/-- A number on its own: a whole number keeps `.0`. -/
def text (x : Double) : String :=
  if x.isNaN then "nan"
  else if x.isInfinite then (if x.negative then "-inf" else "inf")
  else
    let written := x.finiteText
    if written.toList.contains '.' then written else written ++ ".0"

/-- A number as one part of a complex number: a whole number has no point. -/
def partText (x : Double) : String :=
  if x.isNaN then "NaN"
  else if x.isInfinite then (if x.negative then "-inf" else "inf")
  else x.finiteText

end HintCheck.Double
