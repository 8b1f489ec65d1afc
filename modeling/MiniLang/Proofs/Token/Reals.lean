import Mathlib.Data.Nat.Digits.Lemmas
import MiniLang.Proofs.Number.Rounding
import MiniLang.Proofs.Token.Spacing

/-!
# Real literals

A real literal writes a ratio: the number before its point, and the digits behind the point over a
power of ten.  Wherever the literal stands, it is scanned to the nearest number, or to a zero and one
complaint if the ratio is out of range.
-/

namespace MiniLang
namespace Lexeme

/-- The ratio that digits before and behind a point write. -/
def fractionValue (whole fraction : List Char) : ℚ :=
  numeral 10 whole + numeral 10 fraction / 10 ^ fraction.length

theorem numeral_append
    (base : Nat)
    (front back : List Char) :
    numeral base (front ++ back) = numeral base front * base ^ back.length + numeral base back := by
  rw [numeral, List.reverse_append, List.map_append, Nat.ofDigits_append, List.length_map,
    List.length_reverse, ← numeral, ← numeral]
  ring

theorem numeral_div_pow
    (whole fraction : List Char) :
    (numeral 10 (whole ++ fraction) : ℚ) / (10 ^ fraction.length : Nat) =
      fractionValue whole fraction := by
  rw [numeral_append, fractionValue]
  push_cast
  field_simp

/-- Rounding the ratio of a real literal. -/
theorem ofRatio?_fraction
    (whole fraction : List Char) :
    (fractionValue whole fraction < Binary64.overflow ->
      ∃ bits, Binary64.ofRatio? (numeral 10 (whole ++ fraction)) (10 ^ fraction.length) =
        some bits ∧ Binary64.Nearest bits (fractionValue whole fraction)) ∧
      (Binary64.overflow ≤ fractionValue whole fraction ->
        Binary64.ofRatio? (numeral 10 (whole ++ fraction)) (10 ^ fraction.length) = none) := by
  rw [← numeral_div_pow]
  exact Binary64.ofRatio?_spec _ (Nat.pow_pos (by decide))

/-- A real literal in range stands for the nearest number. -/
theorem exists_denotes_nearest
    {whole fraction : List Char}
    (digits : ∀ digit ∈ whole, isDigit digit = true)
    (finite : fractionValue whole fraction < Binary64.overflow) :
    ∃ bits, Denotes .real (whole ++ '.' :: fraction) (.token (.real bits)) ∧
      Binary64.Nearest bits (fractionValue whole fraction) := by
  obtain ⟨bits, found, nearest⟩ := (ofRatio?_fraction whole fraction).1 finite
  exact ⟨bits, .real digits found, nearest⟩

/-- A real literal out of range stands for a zero, with a complaint. -/
theorem denotes_zero
    {whole fraction : List Char}
    (digits : ∀ digit ∈ whole, isDigit digit = true)
    (huge : Binary64.overflow ≤ fractionValue whole fraction) :
    Denotes .real (whole ++ '.' :: fraction)
      (.replaced (outOfRange "real" (whole ++ '.' :: fraction)) (.real 0)) :=
  .hugeReal digits ((ofRatio?_fraction whole fraction).2 huge)

end Lexeme
end MiniLang
