/-!
# Decimal spellings

A number is spelled by decimal digits alone, and an integer by the digits of its size behind a minus
sign if it is negative.  So what holds of digits holds of every character of a number in a text.
-/

namespace MiniLang

section Decimal

variable {character : Char}

theorem isDigit_of_mem_repr
    {number : Nat}
    (listed : character ∈ number.repr.toList) :
    character.isDigit = true := by
  rw [Nat.toList_repr] at listed
  exact Nat.isDigit_of_mem_toDigits (by decide) (by decide) listed

/-- A character that is no digit is in no spelling of a number. -/
theorem notMem_repr
    (other : character.isDigit = false)
    (number : Nat) :
    character ∉ number.repr.toList := by
  intro listed
  rw [isDigit_of_mem_repr listed] at other
  cases other

theorem isDigit_or_minus_of_mem_repr
    {value : Int}
    (listed : character ∈ value.repr.toList) :
    character.isDigit = true ∨ character = '-' := by
  cases value with
  | ofNat size => exact .inl (isDigit_of_mem_repr listed)
  | negSucc size =>
      change character ∈ ("-" ++ size.succ.repr).toList at listed
      rw [String.toList_append, List.mem_append] at listed
      rcases listed with sign | digit
      · exact .inr (List.mem_singleton.1 sign)
      · exact .inl (isDigit_of_mem_repr digit)

end Decimal

end MiniLang
