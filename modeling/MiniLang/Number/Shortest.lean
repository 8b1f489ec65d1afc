import MiniLang.Number.Binary64

/-!
# The shortest decimal of a 64-bit real

The text of a real has the fewest decimal digits that still read back as the same number; among
those it is the one nearest to the number, the upper one on a tie.  It is written positionally,
never with an exponent, and without a fraction if there is none.
-/

namespace MiniLang
namespace Binary64

/-- The reals that round to a positive number, in quarters of the number's unit. -/
structure Neighbourhood where
  /-- The lower end. -/
  low : Nat
  /-- The number itself. -/
  middle : Nat
  /-- The upper end. -/
  high : Nat
  /-- Whether the two ends round to the number as well. -/
  closed : Bool
  deriving DecidableEq, Repr

/-- The neighbourhood of a positive number.  Below a power of two the next number is only half as
far away, unless the unit is already the smallest one. -/
def neighbourhood (significand : Nat) (exponent : Int) : Neighbourhood :=
  let quarters := 4 * significand
  let narrow := significand = fullSignificand ∧ exponent ≠ -smallestPower
  { low := if narrow then quarters - 1 else quarters - 2
    middle := quarters
    high := quarters + 2
    closed := significand % 2 = 0 }

/-- A positive decimal number `digits * 10^exponent`. -/
structure Decimal where
  digits : Nat
  exponent : Int
  deriving DecidableEq, Repr

/-- The factors that bring quarters of the unit `2^exponent` and a decimal unit `10^grid` to a
common denominator. -/
def commonFactors (exponent grid : Int) : Nat × Nat :=
  (Nat.pow 2 (exponent - 2).toNat * Nat.pow 10 (-grid).toNat,
    Nat.pow 2 (2 - exponent).toNat * Nat.pow 10 grid.toNat)

/-- The nearest multiple of `10^grid` that reads back as the number, if one does. -/
def Neighbourhood.onGrid? (reals : Neighbourhood) (exponent grid : Int) : Option Nat :=
  let factors := commonFactors exponent grid
  let low := reals.low * factors.1
  let middle := reals.middle * factors.1
  let high := reals.high * factors.1
  let inside := fun (point : Nat) =>
    if reals.closed then decide (low <= point ∧ point <= high)
    else decide (low < point ∧ point < high)
  let below := middle / factors.2
  let distanceBelow := middle - below * factors.2
  let distanceAbove := (below + 1) * factors.2 - middle
  match inside (below * factors.2), inside ((below + 1) * factors.2) with
  | true, true => if distanceBelow < distanceAbove then some below else some (below + 1)
  | true, false => some below
  | false, true => some (below + 1)
  | false, false => none

/-- The exponent of the leading decimal digit is found by counting up from a power of ten that is
not above the number. -/
def leadingExponent (quarters : Nat) (exponent : Int) : Nat -> Int -> Int
  | 0, candidate => candidate
  | steps + 1, candidate =>
    let factors := commonFactors exponent (candidate + 1)
    if factors.2 <= quarters * factors.1 then leadingExponent quarters exponent steps (candidate + 1)
    else candidate

/-- Try ever finer decimal grids until one has a point that reads back as the number. -/
def Neighbourhood.shortestFrom (reals : Neighbourhood) (exponent : Int) : Nat -> Int -> Decimal
  | 0, grid => ⟨0, grid⟩
  | tries + 1, grid =>
    match reals.onGrid? exponent grid with
    | some digits => ⟨digits, grid⟩
    | none => reals.shortestFrom exponent tries (grid - 1)

/-- The power of ten at which the search for the leading digit starts. -/
def lowestLeading : Int := -330

/-- The greatest number of steps that the search for the leading digit takes. -/
def leadingSteps : Nat := 660

/-- Seventeen digits always read back. -/
def enoughDigits : Nat := 18

/-- The shortest decimal of a positive number. -/
def shortest (significand : Nat) (exponent : Int) : Decimal :=
  let reals := neighbourhood significand exponent
  reals.shortestFrom exponent enoughDigits
    (leadingExponent reals.middle exponent leadingSteps lowestLeading)

/-- Drop zeros from the end of a text of digits. -/
def trimZeros (digits : List Char) : List Char :=
  (digits.reverse.dropWhile (fun digit => digit == '0')).reverse

/-- A decimal in positional notation. -/
def Decimal.positional (decimal : Decimal) : String :=
  let digits := decimal.digits.repr.toList
  if 0 <= decimal.exponent then
    String.ofList (digits ++ List.replicate decimal.exponent.toNat '0')
  else
    let places := (-decimal.exponent).toNat
    let padded := List.replicate (places + 1 - digits.length) '0' ++ digits
    let whole := padded.take (padded.length - places)
    let fraction := trimZeros (padded.drop (padded.length - places))
    String.ofList (if fraction.isEmpty then whole else whole ++ '.' :: fraction)

/-- The sign of a text of digits. -/
def signed (negative : Bool) (text : String) : String :=
  if negative then "-" ++ text else text

/-- The text of a bit pattern. -/
def text (bits : UInt64) : String :=
  match meaning bits with
  | .notANumber => "NaN"
  | .infinite negative => signed negative "inf"
  | .finite negative significand exponent =>
    signed negative
      (if significand = 0 then "0" else (shortest significand exponent).positional)

end Binary64
end MiniLang
