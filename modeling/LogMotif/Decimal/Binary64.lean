/-! # Finite binary64 numbers

The finite numbers of the binary64 format, held exactly: a sign and a magnitude `m · 2 ^ q`. A
magnitude is rounded from a fraction, to the nearest one of the format and to an even `m` in the
middle; a fraction beyond the greatest magnitude has none.

A decimal numeral is read in two roundings: its digits as an integer, then the product or quotient
with a rounded power of ten. This is not always the magnitude nearest to the numeral.
-/

namespace LogMotif

/-- A magnitude `significand · 2 ^ exponent` of the binary64 format: 53 bits, or fewer at the least
exponent. -/
structure Magnitude where
  significand : Nat
  exponent : Int
deriving DecidableEq, Repr

namespace Magnitude

/-- The exponent of the least steps of the format. -/
def leastExponent : Int := -1074

/-- The exponent of the greatest magnitude of the format. -/
def greatestExponent : Int := 971

/-- The least significand of 53 bits. -/
def leastFull : Nat := 0x10000000000000

/-- The magnitude zero. -/
def zero : Magnitude := ⟨0, leastExponent⟩

/-- A fraction multiplied by a power of two. -/
def scaleByTwo (numerator denominator : Nat) (power : Int) : Nat × Nat :=
  (numerator <<< power.toNat, denominator <<< (-power).toNat)

/-- The greatest `k` with `2 ^ k` at most the fraction, which is not zero. -/
def floorLog2 (numerator denominator : Nat) : Int :=
  let guess : Int := (numerator.log2 : Int) - denominator.log2
  let (scaled, unit) := scaleByTwo numerator denominator (-guess)
  if unit ≤ scaled then guess else guess - 1

/-- The quotient of a division, rounded to nearest and to even in the middle. -/
def divideToEven (numerator denominator : Nat) : Nat :=
  let quotient := numerator / denominator
  let twice := 2 * (numerator % denominator)
  if denominator < twice ∨ (twice = denominator ∧ quotient % 2 = 1) then quotient + 1 else quotient

/-- The magnitude nearest to a fraction, if the fraction is within the range of the format. -/
def ofFraction? (numerator denominator : Nat) : Option Magnitude :=
  if numerator = 0 then some zero
  else
    let exponent := max (floorLog2 numerator denominator - 52) leastExponent
    let (scaled, unit) := scaleByTwo numerator denominator (-exponent)
    let significand := divideToEven scaled unit
    let rounded : Magnitude :=
      if significand = 2 * leastFull then ⟨leastFull, exponent + 1⟩ else ⟨significand, exponent⟩
    if rounded.exponent ≤ greatestExponent then some rounded else none

/-- The magnitude as a fraction. -/
def fraction (magnitude : Magnitude) : Nat × Nat :=
  scaleByTwo magnitude.significand 1 magnitude.exponent

/-- The magnitude nearest to an integer; zero stands in for one out of range. -/
def ofNat (n : Nat) : Magnitude := (ofFraction? n 1).getD zero

/-- The rounded product of two magnitudes. -/
def mul? (left right : Magnitude) : Option Magnitude :=
  let (a, b) := left.fraction
  let (c, d) := right.fraction
  ofFraction? (a * c) (b * d)

/-- The rounded quotient by a magnitude that is at least one. -/
def div (left right : Magnitude) : Magnitude :=
  let (a, b) := left.fraction
  let (c, d) := right.fraction
  (ofFraction? (a * d) (b * c)).getD zero

/-- The greatest power of ten that the format holds. -/
def greatestPowerOfTen : Nat := 308

/-- Divide by ten to the `power`, in steps that the format holds. -/
def divByPowerOfTen (magnitude : Magnitude) (power : Nat) : Magnitude :=
  if power ≤ greatestPowerOfTen then magnitude.div (ofNat (Nat.pow 10 power))
  else if magnitude.significand = 0 then magnitude
  else (magnitude.div (ofNat (Nat.pow 10 greatestPowerOfTen))).divByPowerOfTen
    (power - greatestPowerOfTen)
termination_by power
decreasing_by simp only [greatestPowerOfTen] at *; omega

/-- The magnitude read for the numeral `digits · 10 ^ power`, if it is within range. -/
def ofDecimal? (digits : Nat) (power : Int) : Option Magnitude :=
  let magnitude := ofNat digits
  if power < 0 then some (magnitude.divByPowerOfTen (-power).toNat)
  else if power.toNat ≤ greatestPowerOfTen then magnitude.mul? (ofNat (Nat.pow 10 power.toNat))
  else if magnitude.significand = 0 then some magnitude
  else none

end Magnitude

/-- A finite binary64 number. Zero has two signs. -/
structure Binary64 where
  negative : Bool
  magnitude : Magnitude
deriving DecidableEq, Repr

end LogMotif
