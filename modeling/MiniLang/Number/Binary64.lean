/-!
# Rounding to 64-bit reals

A real number of the language is held as the bit pattern of a 64-bit binary floating-point number:
one sign bit, eleven exponent bits and fifty-two fraction bits.  This module finds the pattern
nearest to a ratio of natural numbers, and takes a pattern apart again.  All arithmetic is exact.

For a finite positive pattern with significand `m` and unit `2^(k - 1074)` the pattern, read as a
natural number, is `k * 2^52 + m`.  The formula covers the subnormal numbers (`k = 0`, `m < 2^52`)
as well as a significand that rounding has carried up to `2^53`.
-/

namespace MiniLang
namespace Binary64

/-- The number of fraction bits. -/
def fractionBits : Nat := 52

/-- The significand of a power of two, `2^52`. -/
def fullSignificand : Nat := 0x10000000000000

/-- The weight of the sign bit, `2^63`. -/
def signWeight : Nat := 0x8000000000000000

/-- The smallest positive number is 2 to the power of minus this. -/
def smallestPower : Nat := 1074

/-- The pattern of infinity; the patterns of the finite non-negative numbers are those below. -/
def infinity : Nat := 0x7FF0000000000000

/-- The quotient rounded to the nearest natural number, a half going to the even one. -/
def roundDiv (numerator denominator : Nat) : Nat :=
  let quotient := numerator / denominator
  let remainder := numerator % denominator
  if 2 * remainder < denominator then quotient
  else if denominator < 2 * remainder then quotient + 1
  else if quotient % 2 = 0 then quotient
  else quotient + 1

/-- A ratio divided by a power of two with an integer exponent, as a ratio again. -/
def scale (numerator denominator : Nat) (exponent : Int) : Nat × Nat :=
  (numerator * Nat.pow 2 (-exponent).toNat, denominator * Nat.pow 2 exponent.toNat)

/-- The greatest exponent whose power of two is not above a positive ratio. -/
def logTwo (numerator denominator : Nat) : Int :=
  let estimate := (Nat.log2 numerator : Int) - (Nat.log2 denominator : Int)
  let scaled := scale numerator denominator estimate
  if scaled.2 <= scaled.1 then estimate else estimate - 1

/-- The exponent of the unit in which the significand of a positive ratio is counted. -/
def unitExponent (numerator denominator : Nat) : Int :=
  max (logTwo numerator denominator - fractionBits) (-smallestPower)

/-- The pattern nearest to a ratio, ties going to the even significand.  The result is at least
`infinity` if no finite number is near enough. -/
def patternOfRatio (numerator denominator : Nat) : Nat :=
  if numerator = 0 then 0
  else
    let exponent := unitExponent numerator denominator
    let scaled := scale numerator denominator exponent
    (exponent + smallestPower).toNat * fullSignificand + roundDiv scaled.1 scaled.2

/-- The finite number nearest to a ratio, or nothing if the ratio is out of range. -/
def ofRatio? (numerator denominator : Nat) : Option UInt64 :=
  let pattern := patternOfRatio numerator denominator
  if pattern < infinity then some (UInt64.ofNat pattern) else none

/-- What a bit pattern stands for. -/
inductive Meaning where
  | notANumber
  | infinite (negative : Bool)
  /-- The number `significand * 2^exponent`, with its sign. -/
  | finite (negative : Bool) (significand : Nat) (exponent : Int)
  deriving DecidableEq, Repr

/-- Take a bit pattern apart. -/
def meaning (bits : UInt64) : Meaning :=
  let pattern := bits.toNat
  let negative := decide (signWeight <= pattern)
  let magnitude := pattern % signWeight
  if infinity < magnitude then .notANumber
  else if magnitude = infinity then .infinite negative
  else
    let fraction := magnitude % fullSignificand
    let biased := magnitude / fullSignificand
    if biased = 0 then .finite negative fraction (-smallestPower)
    else .finite negative (fullSignificand + fraction) ((biased : Int) - 1 - smallestPower)

end Binary64
end MiniLang
