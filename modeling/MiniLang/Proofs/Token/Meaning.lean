import Mathlib.Data.Nat.Digits.Defs
import MiniLang.Token.Scan
import MiniLang.Proofs.Token.Munch

/-!
# What lexemes stand for

Numbers stand for the values of their digits, as far as these can be held, and string literals for
their characters with the escapes resolved.  The relation `Denotes` says for every rule what a
lexeme comes to.  It is a function of the lexeme, and it is the one that the scanner computes.
-/

namespace MiniLang
namespace Lexeme

/-- The number that digits write in a base, the last digit counting units. -/
def numeral (base : Nat) (digits : List Char) : Nat :=
  Nat.ofDigits base (digits.reverse.map digitValue)

theorem valueOf_eq_numeral
    (base : Nat)
    (digits : List Char) :
    valueOf base digits = numeral base digits := by
  rw [valueOf, numeral, Nat.ofDigits_eq_foldr, List.foldr_map, List.foldr_reverse]
  congr 1
  funext total digit
  rw [Nat.cast_id, Nat.add_comm]

/-- The characters that the inside of a string literal stands for.  A backslash and `n` stand for a
line feed, a backslash and any other character for that character. -/
inductive Escapes : List Char -> List Char -> Prop
  | nil : Escapes [] []
  | plain {character : Char} {rest resolved : List Char}
      (ordinary : character ≠ '\\')
      (after : Escapes rest resolved) :
      Escapes (character :: rest) (character :: resolved)
  | feed {rest resolved : List Char}
      (after : Escapes rest resolved) :
      Escapes ('\\' :: 'n' :: rest) ('\n' :: resolved)
  | other {character : Char} {rest resolved : List Char}
      (different : character ≠ 'n')
      (after : Escapes rest resolved) :
      Escapes ('\\' :: character :: rest) (character :: resolved)

theorem Escapes.unique
    {inside first second : List Char}
    (one : Escapes inside first)
    (other : Escapes inside second) :
    first = second := by
  induction one generalizing second with
  | nil =>
    cases other
    rfl
  | plain ordinary after inductionHypothesis =>
    cases other with
    | plain _ after => rw [inductionHypothesis after]
    | feed => exact absurd rfl ordinary
    | other => exact absurd rfl ordinary
  | feed after inductionHypothesis =>
    cases other with
    | plain ordinary => exact absurd rfl ordinary
    | feed after => rw [inductionHypothesis after]
    | other different => exact absurd rfl different
  | other different after inductionHypothesis =>
    cases other with
    | plain ordinary => exact absurd rfl ordinary
    | feed => exact absurd rfl different
    | other _ after => rw [inductionHypothesis after]

theorem exists_escapes
    {inside : List Char}
    (admitted : Inside inside)
    (done : Array Char) :
    ∃ resolved, Escapes inside resolved ∧
      (unescapeFrom inside done).toList = done.toList ++ resolved := by
  induction admitted generalizing done with
  | nil => exact ⟨[], .nil, by simp [unescapeFrom]⟩
  | @plain character rest ordinary after inductionHypothesis =>
    obtain ⟨resolved, escapes, read⟩ := inductionHypothesis (done.push character)
    refine ⟨character :: resolved, .plain ordinary.2.1 escapes, ?_⟩
    rw [unescapeFrom, read]
    · simp
    · exact fun _ _ slash => absurd slash ordinary.2.1
  | @escaped character rest same_line after inductionHypothesis =>
    by_cases letter : character = 'n'
    · obtain ⟨resolved, escapes, read⟩ := inductionHypothesis (done.push '\n')
      subst letter
      exact ⟨'\n' :: resolved, .feed escapes, by simp [unescapeFrom, read]⟩
    · obtain ⟨resolved, escapes, read⟩ := inductionHypothesis (done.push character)
      exact ⟨character :: resolved, .other letter escapes, by simp [unescapeFrom, letter, read]⟩

/-- The complaint about a number that cannot be held. -/
def outOfRange (sort : String) (spelling : List Char) : String :=
  sort ++ " literal " ++ String.ofList spelling ++ " out of range"

/-- What a lexeme of a rule comes to. -/
inductive Denotes : Rule -> List Char -> Outcome -> Prop
  | blank (text : List Char) : Denotes .blank text .nothing
  | comment (text : List Char) : Denotes .comment text .nothing
  | keyword (word : Keyword) (text : List Char) :
      Denotes (.keyword word) text (.token (.keyword word))
  | name (text : List Char) : Denotes .name text (.token (.name (String.ofList text)))
  | decimal {digits : List Char} {value : Int32}
      (same : value.toInt = numeral 10 digits) :
      Denotes .decimal digits (.token (.int value))
  | hugeDecimal {digits : List Char}
      (huge : 2 ^ 31 ≤ numeral 10 digits) :
      Denotes .decimal digits (.replaced (outOfRange "integer" digits) (.int 0))
  /-- The value is read as the bits of a signed integer. -/
  | hexadecimal {sign : Char} {digits : List Char} {value : Int32}
      (same : value.toUInt32.toNat = numeral 16 digits) :
      Denotes .hexadecimal ('0' :: sign :: digits) (.token (.int value))
  | hugeHexadecimal {sign : Char} {digits : List Char}
      (huge : 2 ^ 32 ≤ numeral 16 digits) :
      Denotes .hexadecimal ('0' :: sign :: digits)
        (.replaced (outOfRange "integer" ('0' :: sign :: digits)) (.int 0))
  | real {whole fraction : List Char} {bits : UInt64}
      (digits : ∀ digit ∈ whole, isDigit digit = true)
      (nearest : Binary64.ofRatio? (numeral 10 (whole ++ fraction)) (10 ^ fraction.length) =
        some bits) :
      Denotes .real (whole ++ '.' :: fraction) (.token (.real bits))
  | hugeReal {whole fraction : List Char}
      (digits : ∀ digit ∈ whole, isDigit digit = true)
      (huge : Binary64.ofRatio? (numeral 10 (whole ++ fraction)) (10 ^ fraction.length) = none) :
      Denotes .real (whole ++ '.' :: fraction)
        (.replaced (outOfRange "real" (whole ++ '.' :: fraction)) (.real 0))
  | text {inside resolved : List Char}
      (escapes : Escapes inside resolved) :
      Denotes .text ('"' :: inside ++ ['"'])
        (.token (.text (resolved.flatMap String.utf8EncodeChar)))
  | openText (text : List Char) :
      Denotes .openText text (.problem "unterminated string literal")
  | mark (sign : Mark) (text : List Char) : Denotes (.mark sign) text (.token (.mark sign))

theorem takeWhile_whole
    {whole : List Char}
    (digits : ∀ digit ∈ whole, isDigit digit = true)
    (fraction : List Char) :
    (whole ++ '.' :: fraction).takeWhile isDigit = whole := by
  rw [List.takeWhile_append_of_pos digits, List.takeWhile_cons_of_neg (by decide), List.append_nil]

/-- A real is cut at its point in one way only. -/
theorem real_parts
    {whole fraction whole' fraction' : List Char}
    (digits : ∀ digit ∈ whole, isDigit digit = true)
    (digits' : ∀ digit ∈ whole', isDigit digit = true)
    (same : whole ++ '.' :: fraction = whole' ++ '.' :: fraction') :
    whole = whole' ∧ fraction = fraction' := by
  have front := takeWhile_whole digits fraction
  rw [same, takeWhile_whole digits' fraction'] at front
  subst front
  exact ⟨rfl, List.tail_eq_of_cons_eq (List.append_cancel_left same)⟩

/-- A lexeme stands for one thing only. -/
theorem Denotes.unique
    {rule : Rule}
    {text : List Char}
    {first second : Outcome}
    (one : Denotes rule text first)
    (other : Denotes rule text second) :
    first = second := by
  have decimal_fits {value : Int32} {digits : List Char}
      (same : value.toInt = numeral 10 digits) : ¬2 ^ 31 ≤ numeral 10 digits := by
    have bound := value.toInt_lt
    omega
  have hexadecimal_fits {value : Int32} {digits : List Char}
      (same : value.toUInt32.toNat = numeral 16 digits) : ¬2 ^ 32 ≤ numeral 16 digits := by
    have bound := value.toUInt32.toNat_lt
    omega
  cases one with
  | blank | comment | keyword | name | openText | mark =>
    cases other
    rfl
  | decimal same =>
    cases other with
    | decimal also => rw [Int32.toInt_inj.mp (same.trans also.symm)]
    | hugeDecimal huge => exact absurd huge (decimal_fits same)
  | hugeDecimal huge =>
    cases other with
    | decimal same => exact absurd huge (decimal_fits same)
    | hugeDecimal => rfl
  | hexadecimal same =>
    cases other with
    | hexadecimal also =>
      have bits := congrArg Int32.ofUInt32 (UInt32.toNat_inj.mp (same.trans also.symm))
      exact congrArg (fun value => Outcome.token (.int value)) bits
    | hugeHexadecimal huge => exact absurd huge (hexadecimal_fits same)
  | hugeHexadecimal huge =>
    cases other with
    | hexadecimal same => exact absurd huge (hexadecimal_fits same)
    | hugeHexadecimal => rfl
  | @real whole fraction bits digits nearest =>
    generalize shape : whole ++ '.' :: fraction = text at other
    cases other with
    | real digits' nearest' =>
      obtain ⟨rfl, rfl⟩ := real_parts digits digits' shape
      rw [Option.some.inj (nearest.symm.trans nearest')]
    | hugeReal digits' huge =>
      obtain ⟨rfl, rfl⟩ := real_parts digits digits' shape
      cases nearest.symm.trans huge
  | @hugeReal whole fraction digits huge =>
    generalize shape : whole ++ '.' :: fraction = text at other
    cases other with
    | real digits' nearest =>
      obtain ⟨rfl, rfl⟩ := real_parts digits digits' shape
      cases nearest.symm.trans huge
    | hugeReal digits' _ =>
      obtain ⟨rfl, rfl⟩ := real_parts digits digits' shape
      rfl
  | @text inside resolved escapes =>
    generalize shape : '"' :: inside ++ ['"'] = text at other
    cases other with
    | text also =>
      obtain rfl := List.tail_eq_of_cons_eq (List.append_cancel_right shape)
      rw [escapes.unique also]

theorem isDigit_of_integer
    {text : List Char}
    (integer : Matches .integer text) :
    ∀ digit ∈ text, isDigit digit = true := by
  rcases matches_integer.mp integer with rfl | ⟨character, tail, rfl, ⟨first, _⟩, digits⟩
  · exact List.all_eq_true.mp rfl
  · exact List.forall_mem_cons.mpr ⟨first, digits⟩

theorem denotes_decimal
    (digits : List Char) :
    Denotes .decimal digits (.ofNumber "integer" digits .int 0 (decimal? digits)) := by
  rw [decimal?, valueOf_eq_numeral]
  by_cases small : numeral 10 digits < positiveBound
  · rw [if_pos small]
    exact .decimal (Int32.toInt_ofNat_of_lt small)
  · rw [if_neg small]
    exact .hugeDecimal (Nat.le_of_not_lt small)

theorem denotes_hexadecimal
    (sign : Char)
    (digits : List Char) :
    Denotes .hexadecimal ('0' :: sign :: digits)
      (.ofNumber "integer" ('0' :: sign :: digits) .int 0 (hexadecimal? digits)) := by
  rw [hexadecimal?, valueOf_eq_numeral]
  by_cases small : numeral 16 digits < wordBound
  · rw [if_pos small]
    exact .hexadecimal (Nat.mod_eq_of_lt small)
  · rw [if_neg small]
    exact .hugeHexadecimal (Nat.le_of_not_lt small)

theorem denotes_real
    {whole : List Char}
    (digits : ∀ digit ∈ whole, isDigit digit = true)
    (fraction : List Char) :
    Denotes .real (whole ++ '.' :: fraction)
      (.ofNumber "real" (whole ++ '.' :: fraction) .real 0 (real? (whole ++ '.' :: fraction))) := by
  have read : real? (whole ++ '.' :: fraction) =
      Binary64.ofRatio? (numeral 10 (whole ++ fraction)) (10 ^ fraction.length) := by
    rw [real?, takeWhile_whole digits, List.drop_left, List.drop_one, List.tail_cons,
      valueOf_eq_numeral]
    rfl
  rw [read]
  cases nearest : Binary64.ofRatio? (numeral 10 (whole ++ fraction)) (10 ^ fraction.length) with
  | some bits => exact .real digits nearest
  | none => exact .hugeReal digits nearest

/-- The scanner gives each lexeme what it stands for. -/
theorem Munch.denotes
    {rule : Rule}
    {text rest : List Char}
    (munch : Munch rule text rest)
    (start : Nat) :
    Denotes rule text (Span.outcome ⟨rule.cls, start, text⟩) := by
  cases rule with
  | blank => exact .blank text
  | comment => exact .comment text
  | keyword word =>
    obtain rfl := matches_literal.mp munch.matched
    have found : Keyword.ofSpelling? (String.ofList word.spelling.toList) = some word :=
      Keyword.ofSpelling?_eq_some.mpr String.ofList_toList
    simp only [Span.outcome, Rule.cls, Outcome.ofWord, found]
    exact .keyword word _
  | name =>
    have absent : Keyword.ofSpelling? (String.ofList text) = none := by
      cases found : Keyword.ofSpelling? (String.ofList text) with
      | none => rfl
      | some word =>
        have spelled : text = word.spelling.toList := by
          rw [← Keyword.ofSpelling?_eq_some.mp found, String.toList_ofList]
        rcases munch.alone (.keyword word) (matches_literal.mpr spelled) with same | ⟨same, _⟩
        · cases same
        · cases same
    simp only [Span.outcome, Rule.cls, Outcome.ofWord, absent]
    exact .name text
  | decimal => exact denotes_decimal text
  | hexadecimal =>
    obtain ⟨sign, digits, rfl, _⟩ := Rule.matches_hexadecimal.mp munch.matched
    exact denotes_hexadecimal sign digits
  | real =>
    obtain ⟨whole, fraction, rfl, integer, _⟩ := Rule.matches_real.mp munch.matched
    exact denotes_real (isDigit_of_integer integer) fraction
  | text =>
    obtain ⟨inside, rfl, admitted⟩ := Rule.matches_text.mp munch.matched
    obtain ⟨resolved, escapes, read⟩ := exists_escapes admitted #[]
    simp only [Span.outcome, Rule.cls, textBytes, List.cons_append, List.drop_one, List.tail_cons,
      List.dropLast_concat, read]
    exact .text escapes
  | openText => exact .openText text
  | mark sign =>
    obtain rfl := matches_literal.mp munch.matched
    have found : Mark.ofSpelling? (String.ofList sign.spelling.toList) = some sign :=
      Mark.ofSpelling?_eq_some.mpr String.ofList_toList
    simp only [Span.outcome, Rule.cls, found]
    exact .mark sign _

end Lexeme
end MiniLang
