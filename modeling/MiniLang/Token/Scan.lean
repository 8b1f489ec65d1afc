import MiniLang.Token.Lexeme

/-!
# From source text to tokens

Every lexeme either means nothing (blanks and comments), or is a token, or is a problem.  A number
that is out of range is both: it is reported, and a zero takes its place so that reading can go on.
-/

namespace MiniLang
namespace Lexeme

/-- The value of a digit in any base up to sixteen. -/
def digitValue (digit : Char) : Nat :=
  if isDigit digit then digit.toNat - '0'.toNat
  else if 'a' <= digit then digit.toNat - 'a'.toNat + 10
  else digit.toNat - 'A'.toNat + 10

/-- The number that digits write in a base. -/
def valueOf (base : Nat) (digits : List Char) : Nat :=
  digits.foldl (fun total digit => base * total + digitValue digit) 0

/-- The number of non-negative 32-bit signed integers, `2^31`. -/
def positiveBound : Nat := 2147483648

/-- The number of 32-bit words, `2^32`. -/
def wordBound : Nat := 4294967296

/-- The value of a decimal integer, if it is at most the greatest 32-bit signed integer. -/
def decimal? (digits : List Char) : Option Int32 :=
  let value := valueOf 10 digits
  if value < positiveBound then some (Int32.ofNat value) else none

/-- The value of a hexadecimal integer, if it fits 32 bits; the bits are read as a signed
integer. -/
def hexadecimal? (digits : List Char) : Option Int32 :=
  let value := valueOf 16 digits
  if value < wordBound then some (Int32.ofNat value) else none

/-- The real number nearest to a decimal with a point, if there is a finite one. -/
def real? (spelling : List Char) : Option UInt64 :=
  let whole := spelling.takeWhile isDigit
  let fraction := (spelling.drop whole.length).drop 1
  Binary64.ofRatio? (valueOf 10 (whole ++ fraction)) (Nat.pow 10 fraction.length)

/-- Resolve the escapes of a string literal, adding to the characters already read.  The letter `n`
stands for a line feed, every other character for itself. -/
def unescapeFrom : List Char -> Array Char -> Array Char
  | '\\' :: escaped :: rest, done =>
    unescapeFrom rest (done.push (if escaped = 'n' then '\n' else escaped))
  | character :: rest, done => unescapeFrom rest (done.push character)
  | [], done => done

/-- The UTF-8 bytes that the inside of a string literal stands for. -/
def textBytes (inside : List Char) : List UInt8 :=
  (unescapeFrom inside #[]).toList.flatMap String.utf8EncodeChar

/-- What a lexeme comes to. -/
inductive Outcome where
  | nothing
  | token (kind : Token.Kind)
  | problem (message : String)
  /-- A problem in whose place a token stands. -/
  | replaced (message : String) (kind : Token.Kind)
  deriving DecidableEq, Repr

namespace Outcome

/-- The token of an outcome. -/
def kind? : Outcome -> Option Token.Kind
  | .nothing => none
  | .token kind => some kind
  | .problem _ => none
  | .replaced _ kind => some kind

/-- The complaint of an outcome. -/
def message? : Outcome -> Option String
  | .nothing => none
  | .token _ => none
  | .problem message => some message
  | .replaced message _ => some message

end Outcome

/-- A number in range, or the complaint that it is not with a zero in its place. -/
def Outcome.ofNumber {α : Type} (sort : String) (spelling : List Char) (kind : α -> Token.Kind)
    (zero : α) (value? : Option α) : Outcome :=
  match value? with
  | some value => .token (kind value)
  | none =>
    .replaced (sort ++ " literal " ++ String.ofList spelling ++ " out of range") (kind zero)

/-- A word is a reserved word if there is one of that spelling, and a name otherwise. -/
def Outcome.ofWord (word : String) : Outcome :=
  match Keyword.ofSpelling? word with
  | some keyword => .token (.keyword keyword)
  | none => .token (.name word)

/-- What a piece of the text comes to. -/
def Span.outcome (span : Span) : Outcome :=
  match span.cls with
  | .blank => .nothing
  | .comment => .nothing
  | .word => .ofWord (String.ofList span.text)
  | .decimal => .ofNumber "integer" span.text .int 0 (decimal? span.text)
  | .hexadecimal => .ofNumber "integer" span.text .int 0 (hexadecimal? (span.text.drop 2))
  | .real => .ofNumber "real" span.text .real 0 (real? span.text)
  | .text => .token (.text (textBytes ((span.text.drop 1).dropLast)))
  | .openText => .problem "unterminated string literal"
  | .mark =>
    match Mark.ofSpelling? (String.ofList span.text) with
    | some mark => .token (.mark mark)
    | none => .nothing
  | .unknown => .problem ("unrecognized symbol '" ++ String.ofList span.text ++ "'")

end Lexeme

namespace Token

/-- The tokens of a text and what is wrong with it. -/
structure Scan where
  /-- The tokens, the last of which is the end of the file. -/
  tokens : List Token
  diagnostics : List Diagnostic
  deriving DecidableEq, Repr

/-- Read the tokens of a source text. -/
def scan (source : String) : Scan :=
  let characters := source.toList
  let lines := Source.LineIndex.ofChars characters
  let spans := (Lexeme.cut characters).toList
  let tokens := spans.filterMap fun span =>
    span.outcome.kind?.map fun kind => ⟨kind, lines.lineOf span.start⟩
  let diagnostics := spans.filterMap fun span =>
    span.outcome.message?.map fun message => ⟨.lexical, lines.lineOf span.start, message⟩
  { tokens := tokens ++ [⟨.endOfFile, lines.lineOf (Source.byteLength characters)⟩]
    diagnostics := diagnostics }

end Token

end MiniLang
