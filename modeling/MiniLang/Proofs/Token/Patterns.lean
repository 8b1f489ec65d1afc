import MiniLang.Token.Lexeme

/-!
# The lexical rules as patterns

Regular expressions over characters, with the texts they match, and the lexical rules of the
language as a table of such expressions.  Each reserved word and each mark is a rule of its own.
What a rule matches is then described without the expressions, for the proofs that compare a rule
with the scanning of its class.
-/

namespace MiniLang

/-- Looking a spelling up in a list finds the entry with that spelling, if every entry is the first
with its own. -/
theorem find?_spelling
    {α : Type}
    {entries : List α}
    {spelling : α -> String}
    (first : ∀ entry, entries.find? (fun other => spelling other == spelling entry) = some entry)
    {text : String}
    {entry : α} :
    entries.find? (fun other => spelling other == text) = some entry ↔ text = spelling entry := by
  constructor
  · intro found
    have same := List.find?_some found
    exact (beq_iff_eq.mp same).symm
  · rintro rfl
    exact first entry

theorem eq_of_spelling
    {α : Type}
    {entries : List α}
    {spelling : α -> String}
    (first : ∀ entry, entries.find? (fun other => spelling other == spelling entry) = some entry)
    {entry other : α}
    (same : (spelling entry).toList = (spelling other).toList) :
    entry = other := by
  have found := first entry
  rw [String.toList_inj.mp same, first other] at found
  exact (Option.some.inj found).symm

theorem Keyword.find?_spelling_self
    (word : Keyword) :
    Keyword.all.find? (fun other => other.spelling == word.spelling) = some word := by
  cases word <;> decide

theorem Mark.find?_spelling_self
    (sign : Mark) :
    Mark.all.find? (fun other => other.spelling == sign.spelling) = some sign := by
  cases sign <;> decide

theorem Keyword.ofSpelling?_eq_some
    {text : String}
    {word : Keyword} :
    Keyword.ofSpelling? text = some word ↔ text = word.spelling :=
  find?_spelling find?_spelling_self

theorem Mark.ofSpelling?_eq_some
    {text : String}
    {sign : Mark} :
    Mark.ofSpelling? text = some sign ↔ text = sign.spelling :=
  find?_spelling find?_spelling_self

namespace Lexeme

/-- A regular expression over characters. -/
inductive Pattern where
  | empty
  | one (test : Char -> Bool)
  | sequence (first second : Pattern)
  | either (left right : Pattern)
  | many (body : Pattern)

/-- The texts that a pattern matches. -/
inductive Matches : Pattern -> List Char -> Prop
  | empty : Matches .empty []
  | one {test : Char -> Bool} {character : Char} (passes : test character = true) :
      Matches (.one test) [character]
  | sequence {first second : Pattern} {front back : List Char}
      (left : Matches first front) (right : Matches second back) :
      Matches (.sequence first second) (front ++ back)
  | left {left right : Pattern} {text : List Char} (matched : Matches left text) :
      Matches (.either left right) text
  | right {left right : Pattern} {text : List Char} (matched : Matches right text) :
      Matches (.either left right) text
  | stop {body : Pattern} : Matches (.many body) []
  | more {body : Pattern} {front back : List Char}
      (head : Matches body front) (tail : Matches (.many body) back) :
      Matches (.many body) (front ++ back)

namespace Pattern

/-- One given character after another. -/
def literal : List Char -> Pattern
  | [] => .empty
  | character :: rest => .sequence (.one (· == character)) (literal rest)

/-- At least one repetition. -/
def several (body : Pattern) : Pattern :=
  .sequence body (.many body)

/-- A decimal integer: a zero, or digits the first of which is not zero. -/
def integer : Pattern :=
  .either (literal ['0'])
    (.sequence (.one fun character => isDigit character && character != '0')
      (.many (.one isDigit)))

/-- The inside of a string literal.  A backslash takes the next character with it; quotes, lone
backslashes and line feeds are not part of it. -/
def inside : Pattern :=
  .many (.either
    (.one fun character => character != '"' && character != '\\' && character != '\n')
    (.sequence (literal ['\\']) (.one (· != '\n'))))

end Pattern

theorem matches_one
    {test : Char -> Bool}
    {text : List Char} :
    Matches (.one test) text ↔ ∃ character, text = [character] ∧ test character = true := by
  constructor
  · intro matched
    cases matched with
    | one passes => exact ⟨_, rfl, passes⟩
  · rintro ⟨character, rfl, passes⟩
    exact .one passes

theorem matches_sequence
    {first second : Pattern}
    {text : List Char} :
    Matches (.sequence first second) text ↔
      ∃ front back, text = front ++ back ∧ Matches first front ∧ Matches second back := by
  constructor
  · intro matched
    cases matched with
    | sequence left right => exact ⟨_, _, rfl, left, right⟩
  · rintro ⟨front, back, rfl, left, right⟩
    exact .sequence left right

theorem matches_either
    {left right : Pattern}
    {text : List Char} :
    Matches (.either left right) text ↔ Matches left text ∨ Matches right text := by
  constructor
  · intro matched
    cases matched with
    | left matched => exact .inl matched
    | right matched => exact .inr matched
  · rintro (matched | matched)
    · exact .left matched
    · exact .right matched

/-- A single character in front of a pattern. -/
theorem matches_lead
    {test : Char -> Bool}
    {rest : Pattern}
    {text : List Char} :
    Matches (.sequence (.one test) rest) text ↔
      ∃ character tail, text = character :: tail ∧ test character = true ∧ Matches rest tail := by
  simp only [matches_sequence, matches_one]
  constructor
  · rintro ⟨_, back, rfl, ⟨character, rfl, passes⟩, matched⟩
    exact ⟨character, back, rfl, passes, matched⟩
  · rintro ⟨character, tail, rfl, passes, matched⟩
    exact ⟨[character], tail, rfl, ⟨character, rfl, passes⟩, matched⟩

theorem matches_literal
    {characters text : List Char} :
    Matches (.literal characters) text ↔ text = characters := by
  induction characters generalizing text with
  | nil =>
    constructor
    · intro matched
      cases matched
      rfl
    · rintro rfl
      exact .empty
  | cons character rest inductionHypothesis =>
    simp [Pattern.literal, matches_lead, inductionHypothesis]

/-- Given characters in front of a pattern. -/
theorem matches_literal_lead
    {characters : List Char}
    {rest : Pattern}
    {text : List Char} :
    Matches (.sequence (.literal characters) rest) text ↔
      ∃ tail, text = characters ++ tail ∧ Matches rest tail := by
  simp only [matches_sequence, matches_literal]
  constructor
  · rintro ⟨_, tail, same, rfl, matched⟩
    exact ⟨tail, same, matched⟩
  · rintro ⟨tail, same, matched⟩
    exact ⟨characters, tail, same, rfl, matched⟩

theorem matches_many_one
    {test : Char -> Bool}
    {text : List Char} :
    Matches (.many (.one test)) text ↔ ∀ character ∈ text, test character = true := by
  constructor
  · intro matched
    generalize shape : Pattern.many (.one test) = pattern at matched
    induction matched with
    | empty => simp
    | one => cases shape
    | sequence => cases shape
    | left => cases shape
    | right => cases shape
    | stop => simp
    | more head tail _ inductionHypothesis =>
      cases shape
      obtain ⟨character, rfl, passes⟩ := matches_one.mp head
      simpa using ⟨passes, inductionHypothesis rfl⟩
  · intro passes
    induction text with
    | nil => exact .stop
    | cons character rest inductionHypothesis =>
      simp only [List.mem_cons, forall_eq_or_imp] at passes
      exact .more (.one passes.1) (inductionHypothesis passes.2)

theorem matches_several_one
    {test : Char -> Bool}
    {text : List Char} :
    Matches (.several (.one test)) text ↔
      text ≠ [] ∧ ∀ character ∈ text, test character = true := by
  simp only [Pattern.several, matches_lead, matches_many_one]
  constructor
  · rintro ⟨character, tail, rfl, passes, others⟩
    simpa using ⟨passes, others⟩
  · rintro ⟨nonempty, passes⟩
    obtain ⟨character, tail, rfl⟩ := List.exists_cons_of_ne_nil nonempty
    rw [List.forall_mem_cons] at passes
    exact ⟨character, tail, rfl, passes.1, passes.2⟩

theorem matches_integer
    {text : List Char} :
    Matches .integer text ↔
      text = ['0'] ∨ ∃ character tail, text = character :: tail ∧
        (isDigit character = true ∧ character ≠ '0') ∧ ∀ digit ∈ tail, isDigit digit = true := by
  simp only [Pattern.integer, matches_either, matches_literal, matches_lead, matches_many_one,
    Bool.and_eq_true, bne_iff_ne]

/-- The inside of a string literal, read from its front. -/
inductive Inside : List Char -> Prop
  | nil : Inside []
  | plain {character : Char} {rest : List Char}
      (ordinary : character ≠ '"' ∧ character ≠ '\\' ∧ character ≠ '\n')
      (after : Inside rest) : Inside (character :: rest)
  | escaped {character : Char} {rest : List Char}
      (same_line : character ≠ '\n')
      (after : Inside rest) : Inside ('\\' :: character :: rest)

theorem matches_inside
    {text : List Char} :
    Matches .inside text ↔ Inside text := by
  constructor
  · intro matched
    generalize shape : Pattern.inside = pattern at matched
    induction matched with
    | empty => exact .nil
    | one => cases shape
    | sequence => cases shape
    | left => cases shape
    | right => cases shape
    | stop => exact .nil
    | more head tail _ inductionHypothesis =>
      cases shape
      rcases matches_either.mp head with plain | escaped
      · obtain ⟨character, rfl, ordinary⟩ := matches_one.mp plain
        exact .plain (by simpa [and_assoc] using ordinary) (inductionHypothesis rfl)
      · obtain ⟨_, _, rfl, slash, escape⟩ := matches_sequence.mp escaped
        obtain ⟨character, rfl, same_line⟩ := matches_one.mp escape
        obtain rfl := matches_literal.mp slash
        exact .escaped (by simpa using same_line) (inductionHypothesis rfl)
  · intro inside
    induction inside with
    | nil => exact .stop
    | plain ordinary after inductionHypothesis =>
      exact .more (.left (.one (by simp [ordinary]))) inductionHypothesis
    | escaped same_line after inductionHypothesis =>
      have escape : Matches (.one (· != '\n')) _ := .one (by simpa using same_line)
      exact .more (.right (.sequence (matches_literal.mpr rfl) escape)) inductionHypothesis

/-- The lexical rules. -/
inductive Rule where
  | blank
  | comment
  | keyword (word : Keyword)
  | name
  | decimal
  | hexadecimal
  | real
  | text
  /-- A string literal that ends before its closing quote. -/
  | openText
  | mark (sign : Mark)
  deriving DecidableEq

namespace Rule

/-- What a rule matches. -/
def pattern : Rule -> Pattern
  | .blank => .several (.one isBlank)
  | .comment => .sequence (.literal ['/', '/']) (.many (.one (· != '\n')))
  | .keyword word => .literal word.spelling.toList
  | .name => .sequence (.one isLetter) (.many (.one isWordPart))
  | .decimal => .integer
  | .hexadecimal =>
    .sequence (.literal ['0'])
      (.sequence (.one fun character => character == 'x' || character == 'X')
        (.several (.one isHexDigit)))
  | .real => .sequence .integer (.sequence (.literal ['.']) (.several (.one isDigit)))
  | .text => .sequence (.literal ['"']) (.sequence .inside (.literal ['"']))
  | .openText => .sequence (.literal ['"']) .inside
  | .mark sign => .literal sign.spelling.toList

/-- The class in which a rule is scanned. -/
def cls : Rule -> Class
  | .blank => .blank
  | .comment => .comment
  | .keyword _ => .word
  | .name => .word
  | .decimal => .decimal
  | .hexadecimal => .hexadecimal
  | .real => .real
  | .text => .text
  | .openText => .openText
  | .mark _ => .mark

theorem matches_blank
    {text : List Char} :
    Matches Rule.blank.pattern text ↔
      text ≠ [] ∧ ∀ character ∈ text, isBlank character = true :=
  matches_several_one

theorem matches_comment
    {text : List Char} :
    Matches Rule.comment.pattern text ↔
      ∃ tail, text = '/' :: '/' :: tail ∧ ∀ character ∈ tail, character ≠ '\n' := by
  simp [pattern, matches_literal_lead, matches_many_one]

theorem matches_name
    {text : List Char} :
    Matches Rule.name.pattern text ↔
      ∃ character tail, text = character :: tail ∧ isLetter character = true ∧
        ∀ part ∈ tail, isWordPart part = true := by
  simp only [pattern, matches_lead, matches_many_one]

theorem matches_hexadecimal
    {text : List Char} :
    Matches Rule.hexadecimal.pattern text ↔
      ∃ sign digits, text = '0' :: sign :: digits ∧ (sign = 'x' ∨ sign = 'X') ∧
        digits ≠ [] ∧ ∀ digit ∈ digits, isHexDigit digit = true := by
  simp only [pattern, matches_literal_lead, matches_lead, matches_several_one]
  constructor
  · rintro ⟨_, rfl, sign, digits, rfl, spelled, run⟩
    exact ⟨sign, digits, rfl, by simpa using spelled, run⟩
  · rintro ⟨sign, digits, rfl, spelled, run⟩
    exact ⟨_, rfl, sign, digits, rfl, by simpa using spelled, run⟩

theorem matches_real
    {text : List Char} :
    Matches Rule.real.pattern text ↔
      ∃ whole fraction, text = whole ++ '.' :: fraction ∧ Matches .integer whole ∧
        fraction ≠ [] ∧ ∀ digit ∈ fraction, isDigit digit = true := by
  rw [pattern, matches_sequence]
  simp only [matches_literal_lead, matches_several_one]
  constructor
  · rintro ⟨whole, _, rfl, integer, fraction, rfl, run⟩
    exact ⟨whole, fraction, rfl, integer, run⟩
  · rintro ⟨whole, fraction, rfl, integer, run⟩
    exact ⟨whole, _, rfl, integer, fraction, rfl, run⟩

theorem matches_text
    {text : List Char} :
    Matches Rule.text.pattern text ↔ ∃ inside, text = '"' :: inside ++ ['"'] ∧ Inside inside := by
  rw [pattern, matches_literal_lead]
  simp only [matches_sequence, matches_literal, matches_inside]
  constructor
  · rintro ⟨_, rfl, inside, _, rfl, admitted, rfl⟩
    exact ⟨inside, rfl, admitted⟩
  · rintro ⟨inside, rfl, admitted⟩
    exact ⟨_, rfl, inside, _, rfl, admitted, rfl⟩

theorem matches_openText
    {text : List Char} :
    Matches Rule.openText.pattern text ↔ ∃ inside, text = '"' :: inside ∧ Inside inside := by
  simp [pattern, matches_literal_lead, matches_inside]

theorem keyword_unique
    {first second : Keyword}
    {text : List Char}
    (one : Matches (Rule.keyword first).pattern text)
    (other : Matches (Rule.keyword second).pattern text) :
    first = second :=
  eq_of_spelling Keyword.find?_spelling_self
    ((matches_literal.mp one).symm.trans (matches_literal.mp other))

theorem mark_unique
    {first second : Mark}
    {text : List Char}
    (one : Matches (Rule.mark first).pattern text)
    (other : Matches (Rule.mark second).pattern text) :
    first = second :=
  eq_of_spelling Mark.find?_spelling_self
    ((matches_literal.mp one).symm.trans (matches_literal.mp other))

/-- Every reserved word is spelled like a name. -/
theorem matches_name_of_keyword
    (word : Keyword) :
    Matches Rule.name.pattern word.spelling.toList := by
  rw [matches_name]
  cases word <;> exact ⟨_, _, rfl, rfl, List.all_eq_true.mp rfl⟩

end Rule

/-- A text belongs to a class if one of the rules of the class matches it. -/
def Class.Admits (cls : Class) (text : List Char) : Prop :=
  ∃ rule : Rule, rule.cls = cls ∧ Matches rule.pattern text

end Lexeme
end MiniLang
