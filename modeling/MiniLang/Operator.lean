import MiniLang.Token

/-!
# Operators

The prefix and infix operators, their signs, and how tightly the infix ones bind.
-/

namespace MiniLang

/-- The families of infix operators; the operators of a family share one typing rule. -/
inductive Family where
  | logical
  | equality
  | relational
  | arithmetic
  | bitwise
  deriving DecidableEq, Repr

/-- The infix operators. -/
inductive BinaryOp where
  | or
  | and
  | eq
  | ne
  | lt
  | le
  | gt
  | ge
  | add
  | sub
  | mul
  | div
  | bitOr
  | bitAnd
  deriving DecidableEq, Repr

namespace BinaryOp

/-- The mark that writes an infix operator. -/
def mark : BinaryOp -> Mark
  | .or => .barBar
  | .and => .ampAmp
  | .eq => .equalEqual
  | .ne => .notEqual
  | .lt => .less
  | .le => .lessEqual
  | .gt => .greater
  | .ge => .greaterEqual
  | .add => .plus
  | .sub => .minus
  | .mul => .star
  | .div => .slash
  | .bitOr => .bar
  | .bitAnd => .amp

/-- The infix operator that a mark writes. -/
def ofMark? : Mark -> Option BinaryOp
  | .barBar => some .or
  | .ampAmp => some .and
  | .equalEqual => some .eq
  | .notEqual => some .ne
  | .less => some .lt
  | .lessEqual => some .le
  | .greater => some .gt
  | .greaterEqual => some .ge
  | .plus => some .add
  | .minus => some .sub
  | .star => some .mul
  | .slash => some .div
  | .bar => some .bitOr
  | .amp => some .bitAnd
  | _ => none

@[simp] theorem ofMark?_mark (op : BinaryOp) : ofMark? op.mark = some op := by
  cases op <;> rfl

/-- The sign of an infix operator in messages. -/
def sign (op : BinaryOp) : String :=
  op.mark.spelling

/-- The family of an infix operator. -/
def family : BinaryOp -> Family
  | .or | .and => .logical
  | .eq | .ne => .equality
  | .lt | .le | .gt | .ge => .relational
  | .add | .sub | .mul | .div => .arithmetic
  | .bitOr | .bitAnd => .bitwise

/-- How tightly an infix operator binds; the operators of one level associate to the left. -/
def level : BinaryOp -> Nat
  | .or | .and => 1
  | .eq | .ne | .lt | .le | .gt | .ge => 2
  | .add | .sub => 3
  | .mul | .div => 4
  | .bitOr | .bitAnd => 5

end BinaryOp

/-- The prefix operators; a cast is one of them. -/
inductive UnaryOp where
  | neg
  | bitNot
  | not
  | toInt
  | toDouble
  deriving DecidableEq, Repr

namespace UnaryOp

/-- The sign of a prefix operator in messages. -/
def sign : UnaryOp -> String
  | .neg => "-"
  | .bitNot => "~"
  | .not => "!"
  | .toInt => "(int)"
  | .toDouble => "(double)"

/-- The prefix operator that a mark writes. -/
def ofMark? : Mark -> Option UnaryOp
  | .minus => some .neg
  | .bang => some .not
  | .tilde => some .bitNot
  | _ => none

/-- The cast to the type that a reserved word names. -/
def castTo? : Keyword -> Option UnaryOp
  | .int => some .toInt
  | .double => some .toDouble
  | _ => none

end UnaryOp

end MiniLang
