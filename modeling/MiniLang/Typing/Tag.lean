import MiniLang.Tree.Forest
import MiniLang.ValueType

/-!
# Type tags

Checking marks every expression with a tag: its type, or one of two stand-ins for an expression that
has none.  The stand-ins let checking go on after a problem.
-/

namespace MiniLang

/-- What checking makes of an expression. -/
inductive Tag where
  /-- An expression with a type. -/
  | value (type : ValueType)
  /-- A variable that is not declared. -/
  | undeclared
  /-- An operation on operands that it cannot combine. -/
  | incalculable
  deriving DecidableEq, Repr

namespace Tag

/-- The name of a tag in messages. -/
def title : Tag -> String
  | .value type => type.title
  | .undeclared => "undeclared variable"
  | .incalculable => "incalculable expression"

/-- The type of a tag, if it is one. -/
def type? : Tag -> Option ValueType
  | .value type => some type
  | .undeclared => none
  | .incalculable => none

/-- Whether a tag is the type of numbers. -/
def isNumeric (tag : Tag) : Bool :=
  tag.type?.any ValueType.isNumeric

/-- Whether a tag stands in for a missing type. -/
def isStandIn (tag : Tag) : Bool :=
  tag.type?.isNone

end Tag

/-- The tags of the expressions of a forest, by their numbers. -/
structure TagTable where
  tags : Array (Option Tag)
  deriving DecidableEq, Repr

namespace TagTable

/-- The table of a forest in which no expression is tagged. -/
def blank (forest : Forest) : TagTable :=
  ⟨Array.replicate forest.exprs.size none⟩

/-- Tag an expression.  A number outside the table changes nothing. -/
def set (table : TagTable) (id : ExprId) (tag : Tag) : TagTable :=
  ⟨table.tags.setIfInBounds id (some tag)⟩

/-- The tag of an expression. -/
def get? (table : TagTable) (id : ExprId) : Option Tag :=
  table.tags[id]?.join

end TagTable

end MiniLang
