import Mathlib.Data.Int.ModEq
import MiniLang.Proofs.Code.IntegerOperands
import MiniLang.Proofs.Code.RealLiterals

/-!
# Integer literals from source to code

A decimal literal stands for its value, and a hexadecimal one for the signed integer whose bits it
writes.  From there on the integer is handed on as it is: the tokens of a source text that compiles
hold the integers of its syntax tree, and the numerals in the words of the generated text write those
that its instructions take.
-/

namespace MiniLang

namespace Lexeme

/-- The signed integer with given bits is the one that is congruent to their number. -/
theorem toInt_modEq_iff
    {value : Int32}
    {number : Nat}
    (small : number < 2 ^ 32) :
    value.toInt ≡ number [ZMOD 2 ^ 32] ↔ value.toUInt32.toNat = number := by
  have word : value.toInt = (value.toUInt32.toNat : Int).bmod (2 ^ 32) :=
    BitVec.toInt_eq_toNat_bmod value.toBitVec
  have bound : value.toUInt32.toNat < 2 ^ 32 := value.toUInt32.toNat_lt
  have congruent : value.toInt % 2 ^ 32 = (value.toUInt32.toNat : Int) % 2 ^ 32 := by
    rw [word]
    exact Int.bmod_emod
  rw [Int.ModEq, congruent]
  omega

/-- A literal in range, and the integer that it stands for. -/
inductive IntegerLiteral : List Char -> Int32 -> Prop where
  | decimal {digits : List Char} {value : Int32}
      (integer : Matches .integer digits)
      (same : value.toInt = numeral 10 digits) :
      IntegerLiteral digits value
  | hexadecimal {sign : Char} {digits : List Char} {value : Int32}
      (marked : sign = 'x' ∨ sign = 'X')
      (nonempty : digits ≠ [])
      (run : ∀ digit ∈ digits, isHexDigit digit = true)
      (small : numeral 16 digits < 2 ^ 32)
      (congruent : value.toInt ≡ numeral 16 digits [ZMOD 2 ^ 32]) :
      IntegerLiteral ('0' :: sign :: digits) value

/-! ## Scanning a literal -/

section Literals

variable {digits : List Char}

theorem munch_decimal (integer : Matches .integer digits) : Munch .decimal digits [] := by
  have matched : Matches Rule.decimal.pattern digits := integer
  exact munch_alone matched (by rintro ⟨⟩)

/-- A decimal literal in range is scanned to its value. -/
theorem exists_scansTo_decimal
    (integer : Matches .integer digits)
    (small : numeral 10 digits < 2 ^ 31) :
    ∃ value : Int32, value.toInt = numeral 10 digits ∧ ScansTo digits (.int value) [] := by
  have same : (Int32.ofNat (numeral 10 digits)).toInt = numeral 10 digits :=
    Int32.toInt_ofNat_of_lt small
  exact ⟨_, same, (munch_decimal integer).scansTo (.decimal same) rfl rfl
    (by rintro ⟨⟩)⟩

/-- A decimal literal out of range is scanned to a zero, with one complaint. -/
theorem scansTo_hugeDecimal
    (integer : Matches .integer digits)
    (huge : 2 ^ 31 ≤ numeral 10 digits) :
    ScansTo digits (.int 0) [outOfRange "integer" digits] :=
  (munch_decimal integer).scansTo (.hugeDecimal huge) rfl rfl (by rintro ⟨⟩)

variable {sign : Char} (marked : sign = 'x' ∨ sign = 'X') (nonempty : digits ≠ [])
  (run : ∀ digit ∈ digits, isHexDigit digit = true)
include marked nonempty run

theorem munch_hexadecimal : Munch .hexadecimal ('0' :: sign :: digits) [] :=
  munch_alone (Rule.matches_hexadecimal.2 ⟨sign, digits, rfl, marked, nonempty, run⟩)
    (by rintro ⟨⟩)

/-- A hexadecimal literal in range is scanned to the integer that is congruent to its value. -/
theorem exists_scansTo_hexadecimal
    (small : numeral 16 digits < 2 ^ 32) :
    ∃ value : Int32, value.toInt ≡ numeral 16 digits [ZMOD 2 ^ 32] ∧
      ScansTo ('0' :: sign :: digits) (.int value) [] := by
  have same : (UInt32.ofNat (numeral 16 digits)).toInt32.toUInt32.toNat = numeral 16 digits :=
    Nat.mod_eq_of_lt small
  exact ⟨_, (toInt_modEq_iff small).2 same, (munch_hexadecimal marked nonempty run).scansTo
    (.hexadecimal same) rfl rfl (by rintro ⟨⟩)⟩

/-- A hexadecimal literal out of range is scanned to a zero, with one complaint. -/
theorem scansTo_hugeHexadecimal
    (huge : 2 ^ 32 ≤ numeral 16 digits) :
    ScansTo ('0' :: sign :: digits) (.int 0) [outOfRange "integer" ('0' :: sign :: digits)] :=
  (munch_hexadecimal marked nonempty run).scansTo (.hugeHexadecimal huge) rfl rfl
    (by rintro ⟨⟩)

end Literals

/-! ## Literals among the pieces -/

/-- Whether a piece of a source text is an integer literal. -/
def Piece.isInteger (piece : Piece) : Bool :=
  piece.rule = some .decimal || piece.rule = some .hexadecimal

/-- The integer of a piece whose token is an integer literal. -/
def Piece.int? (piece : Piece) : Option Int32 :=
  piece.token?.bind fun token => token.kind.int?

/-- An integer literal that stands without a complaint is in range. -/
theorem Piece.exists_integerLiteral
    {piece : Piece}
    (stands : piece.Stands)
    (quiet : piece.diagnostic? = none)
    (integer : piece.isInteger = true) :
    ∃ value, piece.int? = some value ∧ IntegerLiteral piece.text value := by
  cases stands with
  | stray free => simp [Piece.isInteger, free] at integer
  | @lexeme rule _ rule_eq munch denotes =>
      have sort : rule = .decimal ∨ rule = .hexadecimal := by
        simpa [Piece.isInteger, rule_eq] using integer
      have found {value : Int32} (outcome_eq : piece.outcome = .token (.int value)) :
          piece.int? = some value := by
        rw [Piece.int?, Piece.token?, outcome_eq]
        rfl
      -- A literal out of range would not stand without a complaint.
      have loud {message : String} {kind : Token.Kind}
          (outcome_eq : piece.outcome = .replaced message kind) : False := by
        rw [Piece.diagnostic?, outcome_eq] at quiet
        cases quiet
      generalize outcome_eq : piece.outcome = outcome at denotes
      generalize piece.text = text at munch denotes ⊢
      rcases sort with rfl | rfl
      · cases denotes with
        | decimal same => exact ⟨_, found outcome_eq, .decimal munch.matched same⟩
        | hugeDecimal => exact (loud outcome_eq).elim
      · cases denotes with
        | @hexadecimal _ digits value same =>
            obtain ⟨_, _, text_eq, marked, nonempty, run⟩ :=
              Rule.matches_hexadecimal.1 munch.matched
            cases text_eq
            have small : numeral 16 digits < 2 ^ 32 := same ▸ value.toUInt32.toNat_lt
            exact ⟨value, found outcome_eq,
              .hexadecimal marked nonempty run small ((toInt_modEq_iff small).2 same)⟩
        | hugeHexadecimal => exact (loud outcome_eq).elim

/-- A piece that is no integer literal stands for no integer. -/
theorem Piece.int?_eq_none
    {piece : Piece}
    (stands : piece.Stands)
    (other : piece.isInteger = false) :
    piece.int? = none := by
  cases stands with
  | stray _ _ _ outcome_eq =>
      rw [Piece.int?, Piece.token?, outcome_eq]
      rfl
  | lexeme rule_eq _ denotes =>
      rw [Piece.isInteger, rule_eq] at other
      rw [Piece.int?, Piece.token?]
      generalize piece.outcome = outcome at denotes ⊢
      generalize piece.text = text at denotes
      cases denotes with
      | decimal | hugeDecimal | hexadecimal | hugeHexadecimal => simp at other
      | _ => rfl

/-- The integer literals of a text without complaints stand for its integer tokens, one by one. -/
theorem forall₂_integerLiteral
    {pieces : List Piece}
    (stands : ∀ piece ∈ pieces, piece.Stands)
    (quiet : ∀ piece ∈ pieces, piece.diagnostic? = none) :
    List.Forall₂ (fun piece => IntegerLiteral piece.text) (pieces.filter Piece.isInteger)
      (pieces.filterMap Piece.int?) :=
  forall₂_filterMap _ _
    (fun piece listed => Piece.exists_integerLiteral (stands piece listed) (quiet piece listed))
    fun piece listed => Piece.int?_eq_none (stands piece listed)

end Lexeme

/-- The integer literals of a program are those of its syntax tree. -/
theorem Grammar.Derives.ints_eq
    {tokens : List Token}
    {tree : SyntaxTree}
    (derives : Derives tokens tree) :
    tokens.filterMap (fun token => token.kind.int?) = tree.body.ints := by
  refine derives.filterMap_eq Token.Kind.int? fun kind other => ?_
  cases kind with
  | int => cases other
  | _ => rfl

open CodeText

open Lexeme in
/-- Integer literals keep their value.  A decimal literal of any length is scanned to its value if
that is below `2 ^ 31`, and a hexadecimal one to the one integer that is congruent to its value if
that is below `2 ^ 32`, both without a complaint; out of range they are scanned to a zero and one
complaint.  An integer operand is written as a decimal numeral that reads back as the integer.  In a
source text that compiles, the literals stand one by one for the integers of the syntax tree, and the
numerals in the words of the code write the integers that its instructions have, in order, of which
those that are no part of an instruction itself are literals of the tree. -/
theorem integer_literals_exact :
    (∀ digits : List Char, Matches .integer digits ->
      (numeral 10 digits < 2 ^ 31 ->
        ∃ value : Int32, value.toInt = numeral 10 digits ∧ ScansTo digits (.int value) []) ∧
      (2 ^ 31 ≤ numeral 10 digits ->
        ScansTo digits (.int 0) [outOfRange "integer" digits])) ∧
    (∀ (sign : Char) (digits : List Char), (sign = 'x' ∨ sign = 'X') -> digits ≠ [] ->
      (∀ digit ∈ digits, isHexDigit digit = true) ->
      (numeral 16 digits < 2 ^ 32 ->
        ∃ value : Int32,
          (∀ other : Int32, other.toInt ≡ numeral 16 digits [ZMOD 2 ^ 32] ↔ other = value) ∧
          ScansTo ('0' :: sign :: digits) (.int value) []) ∧
      (2 ^ 32 ≤ numeral 16 digits ->
        ScansTo ('0' :: sign :: digits) (.int 0)
          [outOfRange "integer" ('0' :: sign :: digits)])) ∧
    (∀ value : Int32, number? (Operand.int value).text.toList = some value.toInt) ∧
    ∀ (source : String) (limit : Nat) (lines : List String),
      compile source limit = .success lines ->
      ∃ pieces tokens line tree, Tiles [] source.toList pieces ∧
        (Token.scan source).tokens = tokens ++ [⟨.endOfFile, line⟩] ∧
        Grammar.Derives tokens tree ∧
        List.Forall₂ (fun piece => IntegerLiteral piece.text) (pieces.filter Piece.isInteger)
          tree.body.ints ∧
        lines.flatMap lineNumbers =
          tree.immediates.map (fun immediate => immediate.value.toInt) ∧
        Immediate.literals tree.immediates ⊆ tree.body.ints := by
  refine ⟨?_, ?_, ?_, ?_⟩
  · intro digits integer
    exact ⟨exists_scansTo_decimal integer, scansTo_hugeDecimal integer⟩
  · intro sign digits marked nonempty run
    refine ⟨fun small => ?_, scansTo_hugeHexadecimal marked nonempty run⟩
    obtain ⟨value, congruent, scans⟩ := exists_scansTo_hexadecimal marked nonempty run small
    refine ⟨value, fun other => ?_, scans⟩
    constructor
    · intro also
      have same := ((toInt_modEq_iff small).1 also).trans ((toInt_modEq_iff small).1 congruent).symm
      exact congrArg Int32.ofUInt32 (UInt32.toNat_inj.1 same)
    · rintro rfl
      exact congruent
  · intro value
    have read_eq := number?_repr List.takeWhile_nil value.toInt
    rwa [List.append_nil] at read_eq
  · intro source limit lines succeeds
    obtain ⟨tokens, line, tree, -, -, tokens_eq, derives, -⟩ := exists_derives_of_success succeeds
    obtain ⟨quiet, tags, code, accepts, generated, rfl⟩ := exists_accepted_of_success succeeds
    obtain ⟨pieces, tiles, -⟩ := exists_tiles [] source.toList
    obtain ⟨scanned, complaints⟩ := scan_of_tiles tiles
    have readBack := Program.readsBack_of_derives derives line
    rw [← tokens_eq] at readBack
    have literals : List.Forall₂ (fun piece => IntegerLiteral piece.text)
        (pieces.filter Piece.isInteger) tree.body.ints := by
      rw [tokens_eq] at scanned
      rw [complaints, List.filterMap_eq_nil_iff] at quiet
      rw [← derives.ints_eq, (List.append_inj' scanned rfl).1, List.filterMap_filterMap]
      exact forall₂_integerLiteral tiles.stands quiet
    refine ⟨pieces, tokens, line, tree, tiles, tokens_eq, derives, literals, ?_,
      tree.literals_immediates_subset⟩
    refine (Program.wellFounded_ofTokens _).flatMap_lineNumbers readBack accepts generated ?_
    intro item present name named
    exact solid_of_isWordPart
      (isWordPart_of_mem_names (Relabelling.mem_names_of_item generated present named))

/-- Forty zeros and eight digits whose bits are all set. -/
def allSet : List Char :=
  List.replicate 40 '0' ++ List.replicate 8 'F'

/-- A program that negates the integer whose bits are all set. -/
def allSetSource : String :=
  "program \x7b int i; i = -0x00FFFFFFFF; \x7d"

open Lexeme in
/-- The largest decimal literal in range is scanned to its value, and the next one to a zero.  Eight
hexadecimal digits whose bits are all set are scanned to minus one, whatever zeros come before them,
and nine digits to a zero.  In a program that negates minus one, it is the one literal, and the code
writes the integers of the syntax tree. -/
theorem extreme_literals_exact :
    (∃ value : Int32, value.toInt = 2147483647 ∧
        ScansTo "2147483647".toList (.int value) []) ∧
      ScansTo "2147483648".toList (.int 0) [outOfRange "integer" "2147483648".toList] ∧
      ScansTo ('0' :: 'x' :: allSet) (.int (-1)) [] ∧
      ScansTo ('0' :: 'X' :: "100000000".toList) (.int 0)
        [outOfRange "integer" ('0' :: 'X' :: "100000000".toList)] ∧
      ∃ lines, ∃ tree : SyntaxTree, compile allSetSource 1 = .success lines ∧
        tree.body.ints = [-1] ∧
        lines.flatMap lineNumbers =
          tree.immediates.map (fun immediate => immediate.value.toInt) ∧
        Immediate.literals tree.immediates ⊆ [-1] := by
  obtain ⟨decimals, hexadecimals, -, compiled⟩ := integer_literals_exact
  have integer (tail : List Char) (run : tail.all isDigit = true) : Matches .integer ('2' :: tail) :=
    matches_integer.2 (.inr ⟨'2', tail, rfl, by decide, List.all_eq_true.1 run⟩)
  refine ⟨?_, ?_, ?_, ?_, ?_⟩
  · have value_eq : numeral 10 "2147483647".toList = 2147483647 := by decide +kernel
    obtain ⟨value, same, scans⟩ :=
      (decimals "2147483647".toList (integer _ rfl)).1 (by rw [value_eq]; decide)
    exact ⟨value, same.trans (congrArg Nat.cast value_eq), scans⟩
  · have value_eq : numeral 10 "2147483648".toList = 2147483648 := by decide +kernel
    exact (decimals "2147483648".toList (integer _ rfl)).2 (by rw [value_eq]; decide)
  · have value_eq : numeral 16 allSet = 4294967295 := by decide +kernel
    obtain ⟨value, only, scans⟩ := (hexadecimals 'x' allSet (.inl rfl) (by decide)
      (List.all_eq_true.1 rfl)).1 (by rw [value_eq]; decide)
    have congruent : (-1 : Int32).toInt ≡ numeral 16 allSet [ZMOD 2 ^ 32] := by
      rw [value_eq]
      decide
    cases (only (-1)).1 congruent
    exact scans
  · have value_eq : numeral 16 "100000000".toList = 4294967296 := by decide +kernel
    exact (hexadecimals 'X' "100000000".toList (.inr rfl) (by decide) (List.all_eq_true.1 rfl)).2
      (by rw [value_eq]; decide)
  · have isSuccess : (compile allSetSource 1).isSuccess = true := by decide +kernel
    obtain ⟨lines, succeeds⟩ := Outcome.exists_of_isSuccess isSuccess
    obtain ⟨pieces, tokens, line, tree, -, tokens_eq, derives, -, numbers_eq, own⟩ :=
      compiled allSetSource 1 lines succeeds
    have ints_eq : tokens.filterMap (fun token => token.kind.int?) = [-1] := by
      have scanned_eq : (Token.scan allSetSource).tokens.filterMap
          (fun token => token.kind.int?) = [-1] := by
        decide +kernel
      rw [tokens_eq, List.filterMap_append] at scanned_eq
      exact (List.append_nil _).symm.trans scanned_eq
    rw [derives.ints_eq] at ints_eq
    rw [ints_eq] at own
    exact ⟨lines, tree, succeeds, ints_eq, numbers_eq, own⟩

end MiniLang
