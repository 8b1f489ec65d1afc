import MiniLang.Tree.Forest

/-!
# Syntax trees

A forest is read by unfolding its numbers into trees.  A number that leads nowhere becomes a
dangling leaf, which is a fault only for a pass that reaches it.

Where nodes are shared, a tree can be far larger than the forest it comes from.  The parts of a node
are therefore functions, and a tree is unfolded only as far as a pass asks for.

Sequences of statements are built from `done` and `seq`, so that a branch without an alternative
has `done` in its place.
-/

namespace MiniLang

/-- A number that names no node, and the size of the row in which it was looked up. -/
structure Dangling where
  size : Nat
  index : Nat
  deriving DecidableEq, Repr

/-- What is wrong with a number that names no node. -/
def Dangling.message (dangling : Dangling) : String :=
  "index out of bounds: the len is " ++ dangling.size.repr ++ " but the index is " ++
    dangling.index.repr

/-- Which node of a forest an expression was unfolded from. -/
structure Site where
  id : ExprId
  line : Line
  deriving DecidableEq, Repr

/-- Expressions. -/
inductive Expr where
  | name (site : Site) (spelling : String)
  | int (site : Site) (value : Int32)
  | double (site : Site) (bits : UInt64)
  | bool (site : Site) (value : Bool)
  | unary (site : Site) (op : UnaryOp) (operand : Unit -> Expr)
  | binary (site : Site) (op : BinaryOp) (left right : Unit -> Expr)
  | assign (site : Site) (target : Target) (value : Unit -> Expr)
  | dangling (number : Dangling)

/-- Statements and sequences of them. -/
inductive Stmt where
  /-- The empty sequence. -/
  | done
  /-- A statement before the rest of a sequence. -/
  | seq (first rest : Stmt)
  | block (line : Line) (body : Unit -> Stmt)
  | expr (line : Line) (value : Expr)
  | branch (line : Line) (condition : Expr) (yes no : Unit -> Stmt)
  | loop (line : Line) (condition : Expr) (body : Unit -> Stmt)
  | write (line : Line) (value : Expr) (format : Format)
  | writeText (line : Line) (number : Nat)
  | read (line : Line) (target : Target) (format : Format)
  | leave (line : Line)
  | dangling (number : Dangling)

/-- The sequence of given statements. -/
def Stmt.ofList (statements : List Stmt) : Stmt :=
  statements.foldr Stmt.seq .done

namespace Forest

/-- Unfold an expression to a given depth. -/
def unfoldExpr (forest : Forest) : Nat -> ExprId -> Expr
  | 0, id => .dangling ⟨forest.exprs.size, id⟩
  | depth + 1, id =>
    match forest.exprs[id]? with
    | none => .dangling ⟨forest.exprs.size, id⟩
    | some ⟨line, form⟩ =>
      match form with
      | .name spelling => .name ⟨id, line⟩ spelling
      | .int value => .int ⟨id, line⟩ value
      | .double bits => .double ⟨id, line⟩ bits
      | .bool value => .bool ⟨id, line⟩ value
      | .unary op operand => .unary ⟨id, line⟩ op (fun _ => forest.unfoldExpr depth operand)
      | .binary op left right =>
        .binary ⟨id, line⟩ op (fun _ => forest.unfoldExpr depth left)
          (fun _ => forest.unfoldExpr depth right)
      | .assign target value =>
        .assign ⟨id, line⟩ target (fun _ => forest.unfoldExpr depth value)

/-- The tree of an expression.  No path through a forest without cycles is longer than the row of
its expressions, so this depth reaches every leaf. -/
def expr (forest : Forest) (id : ExprId) : Expr :=
  forest.unfoldExpr (forest.exprs.size + 1) id

/-- Unfold a statement to a given depth. -/
def unfoldStmt (forest : Forest) : Nat -> StmtId -> Stmt
  | 0, id => .dangling ⟨forest.stmts.size, id⟩
  | depth + 1, id =>
    match forest.stmts[id]? with
    | none => .dangling ⟨forest.stmts.size, id⟩
    | some ⟨line, form⟩ =>
      match form with
      | .block body => .block line (fun _ => Stmt.ofList (body.map (forest.unfoldStmt depth)))
      | .expr value => .expr line (forest.expr value)
      | .branch condition yes no? =>
        .branch line (forest.expr condition) (fun _ => forest.unfoldStmt depth yes)
          (fun _ => match no? with
            | some no => forest.unfoldStmt depth no
            | none => .done)
      | .loop condition body =>
        .loop line (forest.expr condition) (fun _ => forest.unfoldStmt depth body)
      | .write value format => .write line (forest.expr value) format
      | .writeText number => .writeText line number
      | .read target format => .read line target format
      | .leave => .leave line

/-- The tree of a statement. -/
def stmt (forest : Forest) (id : StmtId) : Stmt :=
  forest.unfoldStmt (forest.stmts.size + 1) id

/-- The tree of a sequence of statements. -/
def sequence (forest : Forest) (ids : List StmtId) : Stmt :=
  Stmt.ofList (ids.map forest.stmt)

end Forest

end MiniLang
