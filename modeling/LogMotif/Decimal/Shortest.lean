import LogMotif.Decimal.Binary64

/-! # Shortest decimal text of a binary64 number

A number is written with the fewest digits that read back as the same number under rounding to
nearest, and among numerals of that length with the one nearest to it. Numbers from `1e-5` up to
`1e16` are written positionally, always with a digit after the point; others with an exponent that
carries its sign.
-/

namespace LogMotif

/-- A decimal numeral `digits · 10 ^ power`. -/
structure Numeral where
  digits : Nat
  power : Int
deriving DecidableEq, Repr

namespace Magnitude

/-- Compare `left · 10 ^ power` with the fraction `numerator / denominator`. -/
def compareScaled (left : Nat) (power : Int) (numerator denominator : Nat) : Ordering :=
  compare (left * Nat.pow 10 power.toNat * denominator) (numerator * Nat.pow 10 (-power).toNat)

/-- Four times the ends of the interval of reals that round to a magnitude which is not zero, in
units of two to its exponent. Below a power of two the steps are half as wide. -/
def roundingEnds (magnitude : Magnitude) : Nat × Nat :=
  let middle := 4 * magnitude.significand
  let narrow := magnitude.significand = leastFull ∧ leastExponent < magnitude.exponent
  (middle - (if narrow then 1 else 2), middle + 2)

/-- Whether a numeral rounds to a magnitude. The ends of the interval do so when the significand is
even. -/
def readsBack (magnitude : Magnitude) (numeral : Numeral) : Bool :=
  let (low, high) := magnitude.roundingEnds
  let (lowNumerator, lowDenominator) := scaleByTwo low 1 (magnitude.exponent - 2)
  let (highNumerator, highDenominator) := scaleByTwo high 1 (magnitude.exponent - 2)
  let closed := magnitude.significand % 2 == 0
  let aboveLow := compareScaled numeral.digits numeral.power lowNumerator lowDenominator
  let belowHigh := compareScaled numeral.digits numeral.power highNumerator highDenominator
  (aboveLow == .gt || (closed && aboveLow == .eq)) &&
    (belowHigh == .lt || (closed && belowHigh == .eq))

/-- The greatest multiple of ten to the `power` that is at most the magnitude, in those units. -/
def floorAt (magnitude : Magnitude) (power : Int) : Nat :=
  let (numerator, denominator) := magnitude.fraction
  (numerator * Nat.pow 10 (-power).toNat) / (denominator * Nat.pow 10 power.toNat)

/-- Whether the magnitude is nearer to `floor + 1` than to `floor`, in units of ten to the `power`;
in the middle, whether `floor` is odd. -/
def roundsUpAt (magnitude : Magnitude) (power : Int) (floor : Nat) : Bool :=
  let (numerator, denominator) := magnitude.fraction
  match compareScaled (2 * floor + 1) power (2 * numerator) denominator with
  | .lt => true
  | .gt => false
  | .eq => floor % 2 == 1

/-- The numeral on the grid of multiples of ten to the `power` that reads back, if there is one: of
two, the nearer. -/
def onGrid? (magnitude : Magnitude) (power : Int) : Option Numeral :=
  let floor := magnitude.floorAt power
  let below : Numeral := ⟨floor, power⟩
  let above : Numeral := ⟨floor + 1, power⟩
  match magnitude.readsBack below, magnitude.readsBack above with
  | true, true => some (if magnitude.roundsUpAt power floor then above else below)
  | true, false => some below
  | false, true => some above
  | false, false => none

/-- The greatest `k` with `10 ^ k` at most the magnitude, which is not zero, found upwards from
`start`. -/
def floorLog10From (magnitude : Magnitude) (start : Int) : Nat → Int
  | 0 => start
  | steps + 1 =>
    if magnitude.floorAt (start + 1) = 0 then start
    else magnitude.floorLog10From (start + 1) steps

/-- The greatest `k` with `10 ^ k` at most the magnitude, which is not zero. -/
def floorLog10 (magnitude : Magnitude) : Int := magnitude.floorLog10From (-324) 640

/-- The shortest numeral that reads back as the magnitude: seventeen digits always do. -/
def shortest (magnitude : Magnitude) : Numeral :=
  let top := magnitude.floorLog10
  ((List.range 17).findSome? fun (more : Nat) => magnitude.onGrid? (top - (more : Int))).getD
    ⟨magnitude.significand, 0⟩

end Magnitude

namespace Numeral

/-- The numeral without trailing zeros among its digits. -/
def stripZeros (digits : List Char) : Int → List Char × Int := fun power =>
  let kept := (digits.reverse.dropWhile (· == '0')).reverse
  (kept, power + ((digits.length - kept.length : Nat) : Int))

/-- The text of a positive numeral, positional from `1e-5` up to `1e16`. -/
def text (numeral : Numeral) : String :=
  let (digits, power) := stripZeros (toString numeral.digits).toList numeral.power
  let count : Int := digits.length
  let leading := count + power - 1
  if -5 ≤ leading ∧ leading < 16 then
    if 0 ≤ power then
      String.ofList (digits ++ List.replicate power.toNat '0') ++ ".0"
    else if 0 ≤ leading then
      let whole := (leading + 1).toNat
      String.ofList (digits.take whole) ++ "." ++ String.ofList (digits.drop whole)
    else
      "0." ++ String.ofList (List.replicate (-leading - 1).toNat '0' ++ digits)
  else
    let sign := if leading < 0 then "-" else "+"
    let rest := digits.drop 1
    let point := if rest.isEmpty then "" else "."
    String.ofList (digits.take 1) ++ point ++ String.ofList rest ++ "e" ++ sign
      ++ toString leading.natAbs

end Numeral

/-- The shortest text of a number, with `0.0` for zero. -/
def Binary64.text (number : Binary64) : String :=
  let sign := if number.negative then "-" else ""
  let magnitude :=
    if number.magnitude.significand = 0 then "0.0" else number.magnitude.shortest.text
  sign ++ magnitude

end LogMotif
