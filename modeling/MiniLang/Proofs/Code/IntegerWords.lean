import MiniLang.Proofs.Code.LineWords
import MiniLang.Proofs.Token.Reals

/-!
# Integers in the generated text

An integer stands in the generated text as a word of decimal digits, with a minus sign if it is
negative.  The numbers are read here off the words of a line, without recourse to the instruction it
was spelled from, and turn out to be the integer operands of the instruction and the zeros that every
instruction of its kind has.
-/

namespace MiniLang

/-- The value of an operand, if it is an integer. -/
def Operand.ints : Operand -> List Int32
  | .int value => [value]
  | _ => []

@[simp] theorem Operand.ints_int (value : Int32) : (Operand.int value).ints = [value] := rfl

@[simp] theorem Operand.ints_register (number : Register) : (Operand.register number).ints = [] := rfl

@[simp] theorem Operand.ints_bool (value : Bool) : (Operand.bool value).ints = [] := rfl

/-- The integers in a line of a routine: its integer operands, the zero that the routine returns, and
the zeros by which a constant is addressed. -/
def Item.ints : Item -> List Int32
  | .label _ => []
  | .instr (.printText _ _) => [0, 0]
  | .instr .ret => [0]
  | .instr instruction => instruction.operands.flatMap Operand.ints

/-! ## Numbers in the text -/

namespace CodeText

open Lexeme (numeral numeral_append digitValue)

/-- The number that decimal digits write. -/
def decimal? (digits : List Char) : Option Nat :=
  if digits ≠ [] ∧ digits.all Char.isDigit = true then some (numeral 10 digits) else none

/-- The number that a word writes in decimal digits, perhaps with a minus sign, and up to a
parenthesis that closes a call. -/
def number? (word : List Char) : Option Int :=
  match word.takeWhile (· ≠ ')') with
  | '-' :: digits => (decimal? digits).map fun size : Nat => -(size : Int)
  | digits => (decimal? digits).map fun size : Nat => (size : Int)

/-- The numbers in the line of an instruction. -/
def lineNumbers (line : String) : List Int :=
  readLine number? line

theorem digitValue_digitChar
    {digit : Nat}
    (small : digit < 10) :
    digitValue (Nat.digitChar digit) = digit := by
  interval_cases digit <;> rfl

/-- Digits of a number write the number. -/
theorem numeral_toDigits
    (number : Nat) :
    numeral 10 (Nat.toDigits 10 number) = number := by
  have single {digit : Nat} (small : digit < 10) : numeral 10 [Nat.digitChar digit] = digit := by
    rw [numeral, List.reverse_singleton, List.map_singleton, Nat.ofDigits_singleton,
      digitValue_digitChar small]
  induction number using Nat.strongRecOn with
  | ind number inductionHypothesis =>
      by_cases small : number < 10
      · rw [Nat.toDigits_of_lt_base small, single small]
      · have large : 10 ≤ number := Nat.le_of_not_lt small
        rw [Nat.toDigits_of_base_le (by decide) large, numeral_append,
          inductionHypothesis (number / 10) (Nat.div_lt_self (by omega) (by decide)),
          single (Nat.mod_lt _ (by decide)), List.length_singleton, pow_one, Nat.div_add_mod']

/-- The spelling of a number writes it. -/
theorem decimal?_repr
    (number : Nat) :
    decimal? number.repr.toList = some number := by
  have digits : number.repr.toList.all Char.isDigit = true :=
    List.all_eq_true.2 fun _ listed => isDigit_of_mem_repr listed
  rw [Nat.toList_repr] at digits ⊢
  rw [decimal?, if_pos ⟨Nat.toDigits_ne_nil, digits⟩, numeral_toDigits]

/-- A word that does not start as a number writes none. -/
theorem number?_eq_none
    {word : List Char}
    (other : startsNumeral word = false) :
    number? word = none := by
  cases word with
  | nil => rfl
  | cons first rest =>
      simp only [startsNumeral, Bool.or_eq_false_iff, decide_eq_false_iff_not] at other
      obtain ⟨not_digit, not_minus⟩ := other
      have none_written : decimal? ((first :: rest).takeWhile (· ≠ ')')) = none := by
        rw [decimal?, List.takeWhile_cons]
        split <;> simp [not_digit]
      rw [number?]
      split
      · next digits opened =>
          rw [List.takeWhile_cons] at opened
          split at opened
          · exact absurd (List.cons.inj opened).1 not_minus
          · cases opened
      · rw [none_written]
        rfl

/-- A word with `x` behind its first digit writes no decimal number. -/
theorem number?_marked
    (digits : List Char) :
    number? (['0', 'x'] ++ digits) = none := by
  have whole : (['0', 'x'] ++ digits).takeWhile (· ≠ ')') =
      '0' :: 'x' :: digits.takeWhile (· ≠ ')') := rfl
  rw [number?, whole]
  change (decimal? ('0' :: 'x' :: digits.takeWhile (· ≠ ')'))).map _ = none
  rw [decimal?, if_neg (by simp), Option.map_none]

section Closing

variable {tail : List Char} (ends : tail.takeWhile (· ≠ ')') = [])
include ends

/-- What a word writes is not changed by parentheses behind it. -/
theorem takeWhile_closing
    {word : List Char}
    (inside : ∀ character ∈ word, character ≠ ')') :
    (word ++ tail).takeWhile (· ≠ ')') = word := by
  rw [List.takeWhile_append_of_pos (fun character listed => decide_eq_true (inside character listed)),
    ends, List.append_nil]

/-- The spelling of an integer writes it. -/
theorem number?_repr
    (value : Int) :
    number? (value.repr.toList ++ tail) = some value := by
  have inside : ∀ character ∈ value.repr.toList, character ≠ ')' := by
    rintro _ listed rfl
    rcases isDigit_or_minus_of_mem_repr listed with digit | minus
    · exact absurd digit (by decide)
    · exact absurd minus (by decide)
  rw [number?, takeWhile_closing ends inside]
  cases value with
  | ofNat size =>
      change (match size.repr.toList with
        | '-' :: digits => (decimal? digits).map fun size : Nat => -(size : Int)
        | digits => (decimal? digits).map fun size : Nat => (size : Int)) = some (size : Int)
      -- Digits alone are not taken for a negative number, since a minus sign is no digit.
      split
      · next rest opened =>
          exact absurd (opened ▸ List.mem_cons_self) (notMem_repr rfl size)
      · rw [decimal?_repr]
        rfl
  | negSucc size =>
      have spelled : (Int.negSucc size).repr.toList = '-' :: size.succ.repr.toList := by
        change ("-" ++ size.succ.repr).toList = _
        rw [String.toList_append]
        rfl
      rw [spelled]
      change (decimal? size.succ.repr.toList).map _ = _
      rw [decimal?_repr]
      rfl

/-- An operand writes a number if it is an integer, namely its own. -/
theorem number?_operand
    (operand : Operand) :
    (number? (operand.text.toList ++ tail)).toList = operand.ints.map Int32.toInt := by
  have other {text : String} (nonempty : text.toList ≠ [])
      (starts : startsNumeral text.toList = false) :
      (number? (text.toList ++ tail)).toList = [] := by
    rw [number?_eq_none ((startsNumeral_append nonempty tail).trans starts)]
    rfl
  cases operand with
  | register number =>
      refine other ?_ (startsNumeral_register number)
      simp [Operand.text, Register.text]
  | int value => exact congrArg Option.toList (number?_repr ends value.toInt)
  | double bits =>
      rw [toList_text_double, List.append_assoc, number?_marked]
      rfl
  | bool value => cases value <;> exact other (by decide) (by decide)

end Closing

/-- The numbers are read off the operands. -/
theorem numeralReader_number : NumeralReader number? where
  silent _ := number?_eq_none
  closing := by
    intro operand
    have closed : [')'].takeWhile (· ≠ ')') = [] := rfl
    have same := (number?_operand closed operand).trans (number?_operand List.takeWhile_nil operand).symm
    rw [List.append_nil] at same
    simpa using congrArg List.head? same
  zero := by decide

/-- The line of an item writes its integers. -/
theorem readItem_number
    (item : Item) :
    readItem number? item = item.ints.map Int32.toInt := by
  have own (operand : Operand) :
      (number? operand.text.toList).toList = operand.ints.map Int32.toInt := by
    have same := number?_operand List.takeWhile_nil operand
    rwa [List.append_nil] at same
  have zero : (number? ['0']).toList = [0] := by decide
  cases item with
  | label opened => rfl
  | instr instr =>
      rw [readItem, numeralReader_number.filterMap_wordsOf]
      cases instr with
      | printText => simp [operandWords, zero, Item.ints]
      | ret => simp [operandWords, zero, Item.ints]
      | _ => simp [operandWords, own, Item.ints, Instr.operands]

end CodeText

open CodeText

/-- The numbers in the lines of a module are the integers of its items. -/
theorem CodeModule.flatMap_lineNumbers
    (code : CodeModule)
    (solid : ∀ item ∈ code.items, ∀ name, item.slotName? = some name -> Solid name.toList) :
    code.lines.flatMap lineNumbers = (code.items.flatMap Item.ints).map Int32.toInt := by
  rw [List.map_flatMap]
  exact (code.flatMap_readLine number? solid).trans
    (List.flatMap_congr fun item _ => readItem_number item)

end MiniLang
