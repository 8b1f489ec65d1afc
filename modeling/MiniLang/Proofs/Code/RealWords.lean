import MiniLang.Proofs.Code.LineWords

/-!
# Real numbers in the generated text

A real number stands in the generated text as a word: `0x` and the sixteen hexadecimal digits of its
bit pattern.  The patterns are read here off the words of a line, without recourse to the
instruction it was spelled from, and turn out to be those of the real operands of the instruction.
-/

namespace MiniLang

/-- The bit pattern of an operand, if it is a real. -/
def Operand.reals : Operand -> List UInt64
  | .double bits => [bits]
  | _ => []

/-- The bit patterns of the real operands of a line of a routine. -/
def Item.reals : Item -> List UInt64
  | .label _ => []
  | .instr instruction => instruction.operands.flatMap Operand.reals

/-- The bit patterns of the real operands in code. -/
def Item.realsOf (code : List Item) : List UInt64 :=
  code.flatMap Item.reals

@[simp] theorem Item.realsOf_append
    (front back : List Item) :
    Item.realsOf (front ++ back) = Item.realsOf front ++ Item.realsOf back :=
  List.flatMap_append

/-! ## Patterns in the text -/

namespace CodeText

/-- The number that hexadecimal digits write. -/
def hexNumber? (digits : List Char) : Option Nat :=
  digits.foldlM (fun total digit => (hexValue? digit).map fun value => 16 * total + value) 0

/-- The bit pattern that sixteen hexadecimal digits write, perhaps before the parenthesis that
closes a call. -/
def sixteenDigits? (text : List Char) : Option UInt64 :=
  if 16 ≤ text.length ∧ (text.drop 16 = [] ∨ text.drop 16 = [')']) then
    (hexNumber? (text.take 16)).map UInt64.ofNat
  else none

/-- The bit pattern that a word spells: `0x` and sixteen digits. -/
def pattern? : List Char -> Option UInt64
  | '0' :: 'x' :: digits => sixteenDigits? digits
  | _ => none

/-- The bit patterns in the line of an instruction. -/
def linePatterns (line : String) : List UInt64 :=
  ((instruction? line).getD []).filterMap pattern?

theorem hexNumber?_fixed
    (width value : Nat) :
    hexNumber? (Hexadecimal.fixed width value) = some (value % 16 ^ width) := by
  induction width generalizing value with
  | zero =>
      rw [Nat.pow_zero, Nat.mod_one]
      rfl
  | succ width inductionHypothesis =>
      have digit_lt : value % 16 < 16 := Nat.mod_lt _ (by decide)
      have front := inductionHypothesis (value / 16)
      unfold hexNumber? at front ⊢
      rw [Hexadecimal.fixed, List.foldlM_append, front]
      change (hexValue? (Hexadecimal.digit (value % 16))).map _ >>= pure = _
      rw [hexValue?_digit digit_lt, Nat.pow_succ', Nat.mod_mul, Nat.add_comm]
      rfl

/-- Sixteen digits spell a pattern, whether or not a parenthesis follows them. -/
theorem sixteenDigits?_fixed
    (bits : UInt64)
    {tail : List Char}
    (ends : tail = [] ∨ tail = [')']) :
    sixteenDigits? (Hexadecimal.fixed 16 bits.toNat ++ tail) = some bits := by
  have number_eq : hexNumber? (Hexadecimal.fixed 16 bits.toNat) = some bits.toNat := by
    rw [hexNumber?_fixed, Nat.mod_eq_of_lt]
    exact bits.toNat_lt
  have length_eq : (Hexadecimal.fixed 16 bits.toNat).length = 16 := Hexadecimal.length_fixed 16 _
  generalize Hexadecimal.fixed 16 bits.toNat = digits at number_eq length_eq
  have long : 16 ≤ (digits ++ tail).length := by
    rw [List.length_append, length_eq]
    exact Nat.le_add_right _ _
  rw [sixteenDigits?, List.drop_left' length_eq, List.take_left' length_eq, if_pos ⟨long, ends⟩,
    number_eq, Option.map_some, UInt64.ofNat_toNat]

theorem pattern?_eq_none
    {word : List Char}
    (other : ¬ ['0', 'x'] <+: word) :
    pattern? word = none := by
  unfold pattern?
  split
  · next digits => exact absurd (List.prefix_append ['0', 'x'] digits) other
  · rfl

theorem pattern?_of_head
    {word : List Char}
    {character : Char}
    (opened : [character] <+: word)
    (other : character ≠ '0') :
    pattern? word = none := by
  refine pattern?_eq_none fun opens => ?_
  obtain ⟨rest, rfl⟩ := opened
  exact other (List.cons_prefix_cons.1 opens).1.symm

theorem pattern?_marked
    (digits : List Char) :
    pattern? (['0', 'x'] ++ digits) = sixteenDigits? digits := rfl

/-- A number in decimal digits spells no pattern. -/
theorem pattern?_repr
    (number : Nat)
    {tail : List Char}
    (ends : tail = [] ∨ tail = [')']) :
    pattern? (number.repr.toList ++ tail) = none := by
  refine pattern?_eq_none fun opens => ?_
  have listed : 'x' ∈ number.repr.toList ++ tail := opens.subset (by simp)
  rcases List.mem_append.1 listed with in_number | in_tail
  · exact notMem_repr rfl number in_number
  · rcases ends with rfl | rfl <;> simp at in_tail

/-- An operand spells a pattern if it is a real, namely its own. -/
theorem pattern?_operand
    (operand : Operand)
    {tail : List Char}
    (ends : tail = [] ∨ tail = [')']) :
    (pattern? (operand.text.toList ++ tail)).toList = operand.reals := by
  have closed {character : Char} {text : String} (opened : [character] <+: text.toList)
      (other : character ≠ '0') : (pattern? (text.toList ++ tail)).toList = [] := by
    rw [pattern?_of_head (opened.trans (List.prefix_append _ _)) other, Option.toList_none]
  cases operand with
  | register number => exact closed (opens_append (by decide) _) (by decide : '%' ≠ '0')
  | int value =>
      change (pattern? (value.toInt.repr.toList ++ tail)).toList = []
      cases value.toInt with
      | ofNat number => exact congrArg Option.toList (pattern?_repr number ends)
      | negSucc number =>
          change (pattern? (("-" ++ number.succ.repr).toList ++ tail)).toList = []
          exact closed (opens_append (by decide) _) (by decide : '-' ≠ '0')
  | double bits =>
      rw [toList_text_double, List.append_assoc, pattern?_marked, sixteenDigits?_fixed bits ends]
      rfl
  | bool value =>
      cases value with
      | false => exact closed (by decide : ['f'] <+: "false".toList) (by decide)
      | true => exact closed (by decide : ['t'] <+: "true".toList) (by decide)

/-- The patterns are read off the operands. -/
theorem numeralReader_pattern : NumeralReader pattern? where
  silent := by
    intro word other
    refine pattern?_eq_none fun opens => ?_
    obtain ⟨rest, rfl⟩ := opens
    cases other
  closing := by
    intro operand
    have same :=
      (pattern?_operand operand (.inr rfl)).trans (pattern?_operand operand (.inl rfl)).symm
    rw [List.append_nil] at same
    simpa using congrArg List.head? same
  zero := by decide

/-- The line of an item spells the patterns of the real operands of the item. -/
theorem readItem_pattern
    (item : Item) :
    readItem pattern? item = item.reals := by
  have own (operand : Operand) : (pattern? operand.text.toList).toList = operand.reals := by
    have same := pattern?_operand operand (.inl rfl)
    rwa [List.append_nil] at same
  have zero : (pattern? ['0']).toList = [] := by decide
  cases item with
  | label opened => rfl
  | instr instr =>
      rw [readItem, numeralReader_pattern.filterMap_wordsOf, Item.reals]
      cases instr with
      | printText => simp [operandWords, zero, Instr.operands]
      | ret => simp [operandWords, zero, Instr.operands]
      | _ => simp [operandWords, own, Instr.operands]

end CodeText

open CodeText

/-- The patterns in the lines of a module are those of the real operands of its items. -/
theorem CodeModule.flatMap_linePatterns
    (code : CodeModule)
    (solid : ∀ item ∈ code.items, ∀ name, item.slotName? = some name -> Solid name.toList) :
    code.lines.flatMap linePatterns = Item.realsOf code.items :=
  (code.flatMap_readLine pattern? solid).trans
    (List.flatMap_congr fun item _ => readItem_pattern item)

end MiniLang
