import MiniLang.Typing.Tag

/-!
# Type errors

What can be wrong with the types of a program.
-/

namespace MiniLang

/-- A breach of the typing rules. -/
inductive TypeError where
  | undeclared (name : String)
  | binary (sign : String) (left right : Tag)
  | unary (sign : String) (operand : Tag)
  | assignment (name : String) (target value : Tag)
  /-- The condition of the construct that a word opens is not a truth value. -/
  | condition (word : String) (found : Tag)
  | write (found : Tag)
  | hexWrite (found : Tag)
  | read (name : String) (found : Tag)
  | hexRead (name : String) (found : Tag)
  deriving DecidableEq, Repr

namespace TypeError

/-- What an error says. -/
def message : TypeError -> String
  | .undeclared name => "undeclared variable " ++ name
  | .binary sign left right =>
    "operator '" ++ sign ++ "' cannot be applied to " ++ left.title ++ " and " ++ right.title
  | .unary sign operand => "operator '" ++ sign ++ "' cannot be applied to " ++ operand.title
  | .assignment name target value =>
    "cannot assign " ++ value.title ++ " to variable " ++ name ++ " of type " ++ target.title
  | .condition word found => word ++ " condition must be bool, found " ++ found.title
  | .write found => "cannot write a value of type " ++ found.title
  | .hexWrite found => "hex write requires int, found " ++ found.title
  | .read name found => "cannot read into variable " ++ name ++ " of type " ++ found.title
  | .hexRead name found => "hex read requires an int variable, " ++ name ++ " is " ++ found.title

/-- An error on a line, as a diagnostic. -/
def diagnostic (error : TypeError) (line : Line) : Diagnostic :=
  ⟨.semantic, line, error.message⟩

end TypeError

end MiniLang
