import MiniLang.Token
import MiniLang.Source.LineIndex

/-!
# Lexemes

A source text is cut from left to right into non-empty pieces.  Each piece is the longest one that
some class of lexemes admits at its place; where two classes admit the same length, the class that
comes first in `Class.all` has it.  A character that no class admits is a piece of its own.
-/

namespace MiniLang
namespace Lexeme

/-- The classes of lexemes. -/
inductive Class where
  /-- Spaces, tabs, carriage returns, line feeds and form feeds. -/
  | blank
  /-- Two slashes and the rest of the line. -/
  | comment
  /-- A letter followed by letters and digits: a reserved word or a name. -/
  | word
  /-- A decimal integer without superfluous zeros. -/
  | decimal
  /-- A hexadecimal integer. -/
  | hexadecimal
  /-- A decimal integer, a point and at least one digit. -/
  | real
  /-- A string literal with both of its quotes. -/
  | text
  /-- A string literal that lacks the closing quote. -/
  | openText
  /-- A punctuation mark or operator sign. -/
  | mark
  /-- A single character that starts nothing else. -/
  | unknown
  deriving DecidableEq, Repr

/-- Whether a character is blank. -/
def isBlank (character : Char) : Bool :=
  character == ' ' || character == '\t' || character == '\r' || character == '\n' ||
    character == '\x0c'

/-- Whether a character is one of the ASCII letters. -/
def isLetter (character : Char) : Bool :=
  ('a' <= character && character <= 'z') || ('A' <= character && character <= 'Z')

/-- Whether a character is one of the ASCII digits. -/
def isDigit (character : Char) : Bool :=
  '0' <= character && character <= '9'

/-- Whether a character is a hexadecimal digit. -/
def isHexDigit (character : Char) : Bool :=
  isDigit character || ('a' <= character && character <= 'f') ||
    ('A' <= character && character <= 'F')

/-- Whether a character can go on a word. -/
def isWordPart (character : Char) : Bool :=
  isLetter character || isDigit character

/-- How many characters at the front satisfy a test. -/
def countWhile (test : Char -> Bool) (characters : List Char) : Nat :=
  (characters.takeWhile test).length

/-- The number of characters that belong to a string literal after its opening quote, added to
those already passed.  A backslash takes the next character with it, unless that ends the line. -/
def textBody : List Char -> Nat -> Nat
  | '\\' :: character :: rest, passed =>
    if character = '\n' then passed else textBody rest (passed + 2)
  | character :: rest, passed =>
    if character = '"' ∨ character = '\\' ∨ character = '\n' then passed
    else textBody rest (passed + 1)
  | [], passed => passed

/-- The length of a decimal integer at the front. -/
def decimalLength : List Char -> Nat
  | '0' :: _ => 1
  | character :: rest => if isDigit character then 1 + countWhile isDigit rest else 0
  | [] => 0

/-- The length of a mark at the front. -/
def markLength : List Char -> Nat
  | first :: second :: _ =>
    if (Mark.ofSpelling? (String.ofList [first, second])).isSome then 2
    else if (Mark.ofSpelling? (String.ofList [first])).isSome then 1
    else 0
  | [only] => if (Mark.ofSpelling? (String.ofList [only])).isSome then 1 else 0
  | [] => 0

namespace Class

/-- The classes that compete for the front of a text. -/
def all : List Class :=
  [.blank, .comment, .word, .decimal, .hexadecimal, .real, .text, .openText, .mark]

/-- The length of the longest piece of a class at the front of a text, 0 if there is none. -/
def longest (cls : Class) (characters : List Char) : Nat :=
  match cls, characters with
  | .blank, _ => countWhile isBlank characters
  | .comment, '/' :: '/' :: rest => 2 + countWhile (fun character => character != '\n') rest
  | .word, character :: rest => if isLetter character then 1 + countWhile isWordPart rest else 0
  | .decimal, _ => decimalLength characters
  | .hexadecimal, '0' :: x :: rest =>
    if (x == 'x' || x == 'X') && (rest.head?.any isHexDigit) then 2 + countWhile isHexDigit rest
    else 0
  | .real, _ =>
    let whole := decimalLength characters
    match whole, characters.drop whole with
    | 0, _ => 0
    | _, '.' :: rest => if rest.head?.any isDigit then whole + 1 + countWhile isDigit rest else 0
    | _, _ => 0
  | .text, '"' :: rest =>
    let body := textBody rest 0
    if rest[body]? = some '"' then body + 2 else 0
  | .openText, '"' :: rest => 1 + textBody rest 0
  | .mark, _ => markLength characters
  | _, _ => 0

end Class

/-- The class that has the longest piece at the front of a text, with that length.  The length is
0 if no class admits anything there. -/
def best (characters : List Char) : Class × Nat :=
  Class.all.foldl
    (fun chosen cls =>
      if chosen.2 < cls.longest characters then (cls, cls.longest characters) else chosen)
    (.unknown, 0)

/-- A piece of a source text. -/
structure Span where
  cls : Class
  /-- The byte offset of its first character. -/
  start : Nat
  text : List Char
  deriving DecidableEq, Repr

/-- Cut a text that starts at a byte offset into pieces, after skipping the characters that still
belong to the piece before, and add them to the pieces already found. -/
def cutFrom : Nat -> List Char -> Nat -> Array Span -> Array Span
  | _, [], _, found => found
  | skip + 1, character :: rest, offset, found =>
    cutFrom skip rest (offset + character.utf8Size) found
  | 0, character :: rest, offset, found =>
    let chosen := best (character :: rest)
    let more := chosen.2 - 1
    cutFrom more rest (offset + character.utf8Size)
      (found.push ⟨chosen.1, offset, character :: rest.take more⟩)

/-- The pieces of a text. -/
def cut (characters : List Char) : Array Span :=
  cutFrom 0 characters 0 #[]

end Lexeme

end MiniLang
