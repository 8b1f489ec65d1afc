import MiniLang.Tree.Unfold
import MiniLang.Typing.Tag

/-!
# Refusals of the code generator

Code is generated for programs that checking accepts.  What contradicts that is refused.
-/

namespace MiniLang

/-- The direction in which values are moved. -/
inductive Direction where
  | read
  | write
  deriving DecidableEq, Repr

/-- The name of the template for a direction in a format. -/
def Direction.template (direction : Direction) (format : Format) : String :=
  match direction, format with
  | .read, .plain => "read"
  | .read, .hex => "hex read"
  | .write, .plain => "write"
  | .write, .hex => "hex write"

/-- Why code cannot be generated. -/
inductive LowerError where
  /-- An expression has no tag. -/
  | untagged (index : ExprId) (line : Line)
  /-- The tag of an expression is no type. -/
  | standIn (tag : Tag) (line : Line)
  | unary (sign : String) (operand : Tag) (line : Line)
  | binary (sign : String) (left right : Tag) (line : Line)
  /-- A variable has no slot. -/
  | noSlot (name : String) (line : Line)
  /-- The named template does not exist for the type of a value that is read or written. -/
  | noTemplate (template : String) (tag : Tag) (line : Line)
  /-- A number leads nowhere. -/
  | dangling (number : Dangling)
  deriving DecidableEq, Repr

namespace LowerError

/-- What a refusal says. -/
def message : LowerError -> String
  | .untagged index line =>
    "expression #" ++ index.repr ++ " at line " ++ line.repr ++ " has no type"
  | .standIn tag line => "expression at line " ++ line.repr ++ " has type " ++ tag.title
  | .unary sign operand line =>
    "no lowering for operator '" ++ sign ++ "' on " ++ operand.title ++ " at line " ++ line.repr
  | .binary sign left right line =>
    "no lowering for operator '" ++ sign ++ "' on " ++ left.title ++ " and " ++ right.title ++
      " at line " ++ line.repr
  | .noSlot name line => "variable " ++ name ++ " at line " ++ line.repr ++ " has no storage"
  | .noTemplate template tag line =>
    "no " ++ template ++ " template for " ++ tag.title ++ " at line " ++ line.repr
  | .dangling number => number.message

/-- A refusal as it is shown to the user. -/
def notice (error : LowerError) : String :=
  "internal compiler error: " ++ error.message ++ "\n"

end LowerError

end MiniLang
