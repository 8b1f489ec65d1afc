import MiniLang.Diagnostic
import MiniLang.Number.Shortest

/-!
# Tokens

The words and marks of the language, the literals, and how a token is named in messages.
-/

namespace MiniLang

/-- The reserved words. -/
inductive Keyword where
  | program
  | «if»
  | «else»
  | «while»
  | read
  | write
  | «return»
  | hex
  | «true»
  | «false»
  | int
  | double
  | bool
  deriving DecidableEq, Repr

namespace Keyword

/-- Every reserved word. -/
def all : List Keyword :=
  [.program, .if, .else, .while, .read, .write, .return, .hex, .true, .false, .int, .double, .bool]

/-- The spelling of a reserved word. -/
def spelling : Keyword -> String
  | .program => "program"
  | .if => "if"
  | .else => "else"
  | .while => "while"
  | .read => "read"
  | .write => "write"
  | .return => "return"
  | .hex => "hex"
  | .true => "true"
  | .false => "false"
  | .int => "int"
  | .double => "double"
  | .bool => "bool"

/-- The reserved word with a given spelling. -/
def ofSpelling? (word : String) : Option Keyword :=
  all.find? (fun keyword => keyword.spelling == word)

end Keyword

/-- The punctuation marks and operator signs. -/
inductive Mark where
  | leftBrace
  | rightBrace
  | leftParen
  | rightParen
  | semicolon
  | comma
  | assign
  | barBar
  | ampAmp
  | equalEqual
  | notEqual
  | less
  | lessEqual
  | greater
  | greaterEqual
  | plus
  | minus
  | star
  | slash
  | bar
  | amp
  | bang
  | tilde
  deriving DecidableEq, Repr

namespace Mark

/-- Every mark, the two-character ones first. -/
def all : List Mark :=
  [.barBar, .ampAmp, .equalEqual, .notEqual, .lessEqual, .greaterEqual,
    .leftBrace, .rightBrace, .leftParen, .rightParen, .semicolon, .comma, .assign,
    .less, .greater, .plus, .minus, .star, .slash, .bar, .amp, .bang, .tilde]

/-- The spelling of a mark. -/
def spelling : Mark -> String
  | .leftBrace => "\x7b"
  | .rightBrace => "\x7d"
  | .leftParen => "("
  | .rightParen => ")"
  | .semicolon => ";"
  | .comma => ","
  | .assign => "="
  | .barBar => "||"
  | .ampAmp => "&&"
  | .equalEqual => "=="
  | .notEqual => "!="
  | .less => "<"
  | .lessEqual => "<="
  | .greater => ">"
  | .greaterEqual => ">="
  | .plus => "+"
  | .minus => "-"
  | .star => "*"
  | .slash => "/"
  | .bar => "|"
  | .amp => "&"
  | .bang => "!"
  | .tilde => "~"

/-- The mark with a given spelling. -/
def ofSpelling? (sign : String) : Option Mark :=
  all.find? (fun mark => mark.spelling == sign)

end Mark

namespace Token

/-- What a token is, apart from its place. -/
inductive Kind where
  | keyword (word : Keyword)
  | mark (sign : Mark)
  /-- A 32-bit signed integer literal. -/
  | int (value : Int32)
  /-- A real literal, as its bit pattern. -/
  | real (bits : UInt64)
  /-- A string literal, as the UTF-8 bytes it stands for. -/
  | text (bytes : List UInt8)
  /-- The name of a variable. -/
  | name (spelling : String)
  | endOfFile
  deriving DecidableEq, Repr

/-- How messages name a token. -/
def Kind.describe : Kind -> String
  | .keyword word => "'" ++ word.spelling ++ "'"
  | .mark sign => "'" ++ sign.spelling ++ "'"
  | .int value => "integer " ++ value.toInt.repr
  | .real bits => "real " ++ Binary64.text bits
  | .text _ => "string literal"
  | .name spelling => "identifier " ++ spelling
  | .endOfFile => "end of file"

end Token

/-- A token and the line of its first character. -/
structure Token where
  kind : Token.Kind
  line : Line
  deriving DecidableEq, Repr

end MiniLang
