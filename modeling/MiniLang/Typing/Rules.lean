import MiniLang.Scope
import MiniLang.Typing.Tag

/-!
# Typing rules

Which types the operators combine and what comes of it, which values a variable takes, and which
stand-in takes the place of an operation that is not allowed.
-/

namespace MiniLang

/-- The type of an infix operation on two types. -/
def BinaryOp.result? (op : BinaryOp) (left right : ValueType) : Option ValueType :=
  match op.family, left, right with
  | .logical, .bool, .bool => some .bool
  | .equality, .bool, .bool => some .bool
  | .arithmetic, .int, .int => some .int
  | .bitwise, .int, .int => some .int
  | .equality, _, _ | .relational, _, _ =>
    if left.isNumeric && right.isNumeric then some .bool else none
  | .arithmetic, _, _ => if left.isNumeric && right.isNumeric then some .double else none
  | _, _, _ => none

/-- The type of a prefix operation on a type. -/
def UnaryOp.result? : UnaryOp -> ValueType -> Option ValueType
  | .neg, .int => some .int
  | .neg, .double => some .double
  | .bitNot, .int => some .int
  | .not, .bool => some .bool
  | .toInt, _ => some .int
  | .toDouble, .int => some .double
  | .toDouble, .double => some .double
  | _, _ => none

/-- Whether a variable of a type takes a value of another: only an integer is widened. -/
def ValueType.accepts : ValueType -> ValueType -> Bool
  | .double, .int => true
  | .double, .double => true
  | .int, .int => true
  | .bool, .bool => true
  | _, _ => false

/-- Whether a value of a type can be written in a format. -/
def Format.canWrite : Format -> ValueType -> Bool
  | .plain, _ => true
  | .hex, type => type = .int

/-- Whether a variable of a type can be read in a format. -/
def Format.canRead : Format -> ValueType -> Bool
  | .plain, type => type.isNumeric
  | .hex, type => type = .int

namespace Tag

/-- The tag of an infix operation; there is none on stand-ins. -/
def binary? (op : BinaryOp) (left right : Tag) : Option Tag := do
  let leftType <- left.type?
  let rightType <- right.type?
  let result <- op.result? leftType rightType
  return .value result

/-- The tag of a prefix operation; there is none on stand-ins. -/
def unary? (op : UnaryOp) (operand : Tag) : Option Tag := do
  let type <- operand.type?
  let result <- op.result? type
  return .value result

/-- Whether a variable with one tag takes a value with another. -/
def accepts (target value : Tag) : Bool :=
  match target, value with
  | .value targetType, .value valueType => targetType.accepts valueType
  | _, _ => false

/-- The tag of an infix operation that is not allowed.  What always gives a truth value still
does. -/
def binaryStandIn (op : BinaryOp) : Tag :=
  match op.family with
  | .logical | .equality | .relational => .value .bool
  | .arithmetic | .bitwise => .incalculable

/-- The tag of a prefix operation that is not allowed. -/
def unaryStandIn : UnaryOp -> Tag
  | .neg => .incalculable
  | .bitNot => .incalculable
  | .not => .value .bool
  | .toInt => .value .int
  | .toDouble => .value .double

end Tag

/-- The tag of a variable. -/
def Scope.tagOf (scope : Scope) (name : String) : Tag :=
  match scope.lookup name with
  | some declaration => .value declaration.type
  | none => .undeclared

end MiniLang
