import MiniLang.Number.Hexadecimal
import MiniLang.Proofs.Text.Decimal
import MiniLang.Token.Lexeme

/-!
# Printable texts

A text is printable if it holds nothing but the ASCII characters from the space to the tilde.
Numerals and words are printable, and so is what is put together from printable texts.  A printable
text stays on one line, since the line feed is not printable.
-/

namespace MiniLang

/-- Whether a character is one of the printable ASCII characters. -/
def isPrintable (character : Char) : Bool :=
  ' ' <= character && character <= '~'

/-- A text of printable characters. -/
def Printable (text : String) : Prop :=
  ∀ character ∈ text.toList, isPrintable character = true

instance (text : String) : Decidable (Printable text) :=
  List.decidableBAll _ text.toList

/-- A text without line feeds. -/
def OneLine (text : String) : Prop :=
  '\n' ∉ text.toList

section Texts

variable {first second : String}

theorem Printable.append
    (first_printable : Printable first)
    (second_printable : Printable second) :
    Printable (first ++ second) := by
  intro character present
  rw [String.toList_append] at present
  rcases List.mem_append.1 present with before | after
  · exact first_printable character before
  · exact second_printable character after

theorem OneLine.append
    (first_oneLine : OneLine first)
    (second_oneLine : OneLine second) :
    OneLine (first ++ second) := by
  rw [OneLine, String.toList_append, List.mem_append]
  exact not_or.2 ⟨first_oneLine, second_oneLine⟩

theorem Printable.oneLine
    (printable : Printable first) :
    OneLine first := by
  intro present
  exact absurd (printable '\n' present) (by decide)

theorem printable_ofList
    {characters : List Char}
    (printable : ∀ character ∈ characters, isPrintable character = true) :
    Printable (String.ofList characters) := by
  rwa [Printable, String.toList_ofList]

end Texts

section Characters

variable {character : Char}

/-- The characters between two printable ones are printable. -/
theorem isPrintable_of_between
    {low high : Char}
    (low_printable : isPrintable low = true)
    (high_printable : isPrintable high = true)
    (not_below : low <= character)
    (not_above : character <= high) :
    isPrintable character = true := by
  simp only [isPrintable, Bool.and_eq_true, decide_eq_true_eq] at low_printable high_printable ⊢
  exact ⟨Char.le_trans low_printable.1 not_below, Char.le_trans not_above high_printable.2⟩

theorem isPrintable_of_isDigit
    (digit : Lexeme.isDigit character = true) :
    isPrintable character = true := by
  simp only [Lexeme.isDigit, Bool.and_eq_true, decide_eq_true_eq] at digit
  exact isPrintable_of_between (by decide) (by decide) digit.1 digit.2

theorem isPrintable_of_isWordPart
    (part : Lexeme.isWordPart character = true) :
    isPrintable character = true := by
  simp only [Lexeme.isWordPart, Lexeme.isLetter, Bool.or_eq_true, Bool.and_eq_true,
    decide_eq_true_eq] at part
  rcases part with (small | capital) | digit
  · exact isPrintable_of_between (by decide) (by decide) small.1 small.2
  · exact isPrintable_of_between (by decide) (by decide) capital.1 capital.2
  · exact isPrintable_of_isDigit digit

end Characters

section Numerals

theorem printable_repr (number : Nat) : Printable number.repr := by
  intro character present
  exact isPrintable_of_isDigit (isDigit_of_mem_repr present)

theorem printable_repr_int (number : Int) : Printable number.repr := by
  intro character present
  rcases isDigit_or_minus_of_mem_repr present with digit | rfl
  · exact isPrintable_of_isDigit digit
  · decide

theorem Hexadecimal.isPrintable_of_mem_fixed
    {character : Char}
    {width value : Nat}
    (present : character ∈ fixed width value) :
    isPrintable character = true := by
  have digits : ∀ below : Fin 16, isPrintable (digit below) = true := by decide
  obtain ⟨below, rfl⟩ := exists_digit_of_mem_fixed present
  exact digits below

end Numerals

namespace Binary64

theorem Decimal.printable_positional (decimal : Decimal) : Printable decimal.positional := by
  have digits : ∀ digit ∈ decimal.digits.repr.toList, isPrintable digit = true :=
    printable_repr decimal.digits
  have zeros (count : Nat) : ∀ digit ∈ List.replicate count '0', isPrintable digit = true := by
    intro digit present
    rw [List.eq_of_mem_replicate present]
    decide
  unfold positional
  dsimp only
  split
  · refine printable_ofList fun digit present => ?_
    rcases List.mem_append.1 present with front | back
    · exact digits digit front
    · exact zeros _ digit back
  · generalize (-decimal.exponent).toNat = places
    have padded : ∀ digit ∈ List.replicate (places + 1 - decimal.digits.repr.toList.length) '0' ++
        decimal.digits.repr.toList, isPrintable digit = true := by
      intro digit present
      rcases List.mem_append.1 present with front | back
      · exact zeros _ digit front
      · exact digits digit back
    generalize List.replicate _ '0' ++ decimal.digits.repr.toList = text at padded ⊢
    have whole : ∀ digit ∈ text.take (text.length - places), isPrintable digit = true :=
      fun digit present => padded digit (List.mem_of_mem_take present)
    refine printable_ofList ?_
    split
    · exact whole
    · intro digit present
      rcases List.mem_append.1 present with front | back
      · exact whole digit front
      · rcases List.mem_cons.1 back with rfl | fraction
        · decide
        · refine padded digit (List.mem_of_mem_drop ((List.mem_reverse.1
            ((List.dropWhile_sublist _).mem (List.mem_reverse.1 fraction)))))

/-- The text of a real is printable, whatever the bit pattern. -/
theorem printable_text (bits : UInt64) : Printable (text bits) := by
  have signed_printable (negative : Bool) {digits : String} (printable : Printable digits) :
      Printable (signed negative digits) := by
    cases negative with
    | false => exact printable
    | true => exact .append (by decide) printable
  unfold text
  split
  · decide
  · exact signed_printable _ (by decide)
  · refine signed_printable _ ?_
    split
    · decide
    · exact Decimal.printable_positional _

end Binary64
end MiniLang
