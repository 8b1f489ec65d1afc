import MiniLang.Token

/-!
# Value types

The types that variables and values have.
-/

namespace MiniLang

/-- The types of values. -/
inductive ValueType where
  | int
  | double
  | bool
  deriving DecidableEq, Repr

namespace ValueType

/-- The reserved word that names a type. -/
def keyword : ValueType -> Keyword
  | .int => .int
  | .double => .double
  | .bool => .bool

/-- The type that a reserved word names. -/
def ofKeyword? : Keyword -> Option ValueType
  | .int => some .int
  | .double => some .double
  | .bool => some .bool
  | _ => none

@[simp] theorem ofKeyword?_keyword (type : ValueType) : ofKeyword? type.keyword = some type := by
  cases type <;> rfl

/-- The name of a type. -/
def title (type : ValueType) : String :=
  type.keyword.spelling

/-- Whether values of a type are numbers. -/
def isNumeric : ValueType -> Bool
  | .int => true
  | .double => true
  | .bool => false

end ValueType

end MiniLang
