import MiniLang.Operator
import MiniLang.TextPool

/-!
# Syntax forests

Expressions and statements are nodes in two rows, and a node names its children by their places in
the rows.  Nodes are added one at a time, so a child that was added before its parent has the
smaller number.  Nothing forces a number to be that of a node, though: a forest may hold numbers
that lead nowhere, that lead forward, or that occur twice.

The numbers of nodes have no bound, unlike those of lines, which stop at `Line.last`.  Numbers of 32
bits lead to the same nodes below 2 ^ 32, that is, as long as each row has fewer than 2 ^ 32 nodes.
-/

namespace MiniLang

/-- The number of an expression in a forest. -/
abbrev ExprId := Nat

/-- The number of a statement in a forest. -/
abbrev StmtId := Nat

/-- A variable as the place that an assignment or a read fills. -/
structure Target where
  name : String
  line : Line
  deriving DecidableEq, Repr

/-- How a value is read or written. -/
inductive Format where
  | plain
  | hex
  deriving DecidableEq, Repr

/-- The two constructs that have a condition. -/
inductive Construct where
  | branch
  | loop
  deriving DecidableEq, Repr

/-- The reserved word that opens a construct. -/
def Construct.keyword : Construct -> Keyword
  | .branch => .if
  | .loop => .while

/-- What an expression is made of. -/
inductive ExprForm where
  | name (spelling : String)
  | int (value : Int32)
  | double (bits : UInt64)
  | bool (value : Bool)
  | unary (op : UnaryOp) (operand : ExprId)
  | binary (op : BinaryOp) (left right : ExprId)
  /-- An assignment; its value is the stored one. -/
  | assign (target : Target) (value : ExprId)
  deriving DecidableEq, Repr

/-- An expression of a forest. -/
structure ExprNode where
  line : Line
  form : ExprForm
  deriving DecidableEq, Repr

/-- What a statement is made of. -/
inductive StmtForm where
  | block (body : List StmtId)
  /-- An expression whose value is dropped. -/
  | expr (value : ExprId)
  | branch (condition : ExprId) (yes : StmtId) (no? : Option StmtId)
  | loop (condition : ExprId) (body : StmtId)
  | write (value : ExprId) (format : Format)
  /-- Write the string constant with a given number. -/
  | writeText (number : Nat)
  | read (target : Target) (format : Format)
  | leave
  deriving DecidableEq, Repr

/-- A statement of a forest. -/
structure StmtNode where
  line : Line
  form : StmtForm
  deriving DecidableEq, Repr

/-- The nodes of a program, and the string constants that they name. -/
structure Forest where
  exprs : Array ExprNode := #[]
  stmts : Array StmtNode := #[]
  texts : TextPool := {}
  deriving DecidableEq, Repr

namespace Forest

/-- The forest without nodes. -/
def empty : Forest := {}

/-- Add an expression.  Its number is the number of expressions before. -/
def addExpr (forest : Forest) (line : Line) (form : ExprForm) : ExprId × Forest :=
  (forest.exprs.size, { forest with exprs := forest.exprs.push ⟨line, form⟩ })

/-- Add a statement.  Its number is the number of statements before. -/
def addStmt (forest : Forest) (line : Line) (form : StmtForm) : StmtId × Forest :=
  (forest.stmts.size, { forest with stmts := forest.stmts.push ⟨line, form⟩ })

/-- Add a string constant and the statement that writes it. -/
def addText (forest : Forest) (line : Line) (bytes : List UInt8) : StmtId × Forest :=
  let pooled := forest.texts.add bytes
  addStmt { forest with texts := pooled.2 } line (.writeText pooled.1)

end Forest

end MiniLang
