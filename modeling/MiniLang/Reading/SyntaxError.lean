import MiniLang.Token

/-!
# Syntax errors

What can be wrong with a sequence of tokens.
-/

namespace MiniLang

/-- A breach of the grammar. -/
inductive SyntaxError where
  /-- A token stands where something else has to. -/
  | unexpected (found : Token) (expected : String)
  /-- A construct is not allowed for a reason of its own. -/
  | refused (line : Line) (reason : String)
  deriving DecidableEq, Repr

namespace SyntaxError

/-- The line of the token that breaks the grammar. -/
def line : SyntaxError -> Line
  | .unexpected found _ => found.line
  | .refused line _ => line

/-- What an error says. -/
def message : SyntaxError -> String
  | .unexpected found expected => "unexpected " ++ found.kind.describe ++ ", expected " ++ expected
  | .refused _ reason => reason

/-- Whether the tokens end too early. -/
def atEnd : SyntaxError -> Bool
  | .unexpected found _ => found.kind == .endOfFile
  | .refused _ _ => false

/-- An error as a diagnostic. -/
def diagnostic (error : SyntaxError) : Diagnostic :=
  ⟨.syntactic, error.line, error.message⟩

/-- A mark is missing. -/
def missing (found : Token) (mark : Mark) : SyntaxError :=
  .unexpected found (Token.Kind.mark mark).describe

/-- A reserved word is missing. -/
def missingWord (found : Token) (word : Keyword) : SyntaxError :=
  .unexpected found (Token.Kind.keyword word).describe

/-- A name is missing. -/
def missingName (found : Token) : SyntaxError :=
  .unexpected found "identifier"

/-- An expression is missing. -/
def missingExpression (found : Token) : SyntaxError :=
  .unexpected found "expression"

/-- The left side of an assignment sign is not just a name. -/
def badTarget (sign : Token) : SyntaxError :=
  .refused sign.line "left-hand side of assignment must be a variable"

/-- A string is written with a format. -/
def hexText (comma : Token) : SyntaxError :=
  .refused comma.line "hex format cannot be applied to a string"

/-- Something follows the closing brace of the program. -/
def trailing (found : Token) : SyntaxError :=
  .refused found.line ("unexpected " ++ found.kind.describe ++ " after end of program")

end SyntaxError

end MiniLang
