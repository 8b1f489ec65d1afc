/-!
# Hexadecimal numerals

Numerals with capital letters and a fixed number of digits.
-/

namespace MiniLang
namespace Hexadecimal

/-- The digit of a value below sixteen. -/
def digit (value : Nat) : Char :=
  if value < 10 then Char.ofNat ('0'.toNat + value) else Char.ofNat ('A'.toNat + (value - 10))

/-- The last digits of a value, as many as the width. -/
def fixed : Nat -> Nat -> List Char
  | 0, _ => []
  | width + 1, value => fixed width (value / 16) ++ [digit (value % 16)]

@[simp] theorem length_fixed (width value : Nat) : (fixed width value).length = width := by
  induction width generalizing value with
  | zero => rfl
  | succ width inductionHypothesis => simp [fixed, inductionHypothesis]

/-- A numeral is made of the digits of values below sixteen. -/
theorem exists_digit_of_mem_fixed
    {character : Char}
    {width value : Nat}
    (present : character ∈ fixed width value) :
    ∃ below : Fin 16, character = digit below := by
  induction width generalizing value with
  | zero => cases present
  | succ width inductionHypothesis =>
      rw [fixed, List.mem_append, List.mem_singleton] at present
      rcases present with front | rfl
      · exact inductionHypothesis front
      · exact ⟨⟨value % 16, Nat.mod_lt _ (by decide)⟩, rfl⟩

end Hexadecimal
end MiniLang
