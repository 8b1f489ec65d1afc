import MiniLang.Proofs.Tree.WellFounded

/-!
# Nodes that a body reaches

The body of a program reaches its own statements, and every node that a reached node names.  In a
well-founded forest the tree of a node is put together from the trees of the nodes that it names, so
what holds of a tree and of all its parts holds of every reached node.
-/

namespace MiniLang

/-- The tree of an expression, given the trees of the expressions that it names. -/
def ExprForm.tree (trees : ExprId -> Expr) (site : Site) : ExprForm -> Expr
  | .name spelling => .name site spelling
  | .int value => .int site value
  | .double bits => .double site bits
  | .bool value => .bool site value
  | .unary op operand => .unary site op fun _ => trees operand
  | .binary op left right => .binary site op (fun _ => trees left) (fun _ => trees right)
  | .assign target value => .assign site target fun _ => trees value

/-- The tree of a statement, given the trees of the nodes that it names. -/
def StmtForm.tree (values : ExprId -> Expr) (trees : StmtId -> Stmt) (line : Line) :
    StmtForm -> Stmt
  | .block body => .block line fun _ => Stmt.ofList (body.map trees)
  | .expr value => .expr line (values value)
  | .branch condition yes no? =>
      .branch line (values condition) (fun _ => trees yes) (fun _ => (no?.map trees).getD .done)
  | .loop condition body => .loop line (values condition) fun _ => trees body
  | .write value format => .write line (values value) format
  | .writeText number => .writeText line number
  | .read target format => .read line target format
  | .leave => .leave line

/-- Only the trees of the expressions that it names make the tree of an expression. -/
theorem ExprForm.tree_congr
    {first second : ExprId -> Expr}
    {form : ExprForm}
    (agree : ∀ child ∈ form.children, first child = second child)
    (site : Site) :
    form.tree first site = form.tree second site := by
  cases form <;> simp_all [ExprForm.tree, ExprForm.children]

/-- Only the trees of the nodes that it names make the tree of a statement. -/
theorem StmtForm.tree_congr
    {values : ExprId -> Expr}
    {first second : StmtId -> Stmt}
    {form : StmtForm}
    (agree : ∀ child ∈ form.children, first child = second child)
    (line : Line) :
    form.tree values first line = form.tree values second line := by
  cases form with
  | block body =>
      have body_eq : body.map first = body.map second := List.map_congr_left agree
      simp only [StmtForm.tree, body_eq]
  | branch condition yes no? =>
      cases no? <;> simp_all [StmtForm.tree, StmtForm.children]
  | _ => simp_all [StmtForm.tree, StmtForm.children]

namespace Forest

variable {forest : Forest} {depth id : Nat} {line : Line}

/-- One step of unfolding an expression. -/
theorem unfoldExpr_succ
    {form : ExprForm}
    (found : forest.exprs[id]? = some ⟨line, form⟩) :
    forest.unfoldExpr (depth + 1) id = form.tree (forest.unfoldExpr depth) ⟨id, line⟩ := by
  rw [unfoldExpr, found]
  cases form <;> rfl

/-- One step of unfolding a statement. -/
theorem unfoldStmt_succ
    {form : StmtForm}
    (found : forest.stmts[id]? = some ⟨line, form⟩) :
    forest.unfoldStmt (depth + 1) id =
      form.tree forest.expr (forest.unfoldStmt depth) line := by
  rw [unfoldStmt, found]
  cases form with
  | branch condition yes no? => cases no? <;> rfl
  | _ => rfl

namespace WellFounded

/-- In a well-founded forest any two depths beyond the number of a statement unfold it alike. -/
theorem unfoldStmt_eq
    (wellFounded : forest.WellFounded)
    (id : Nat) :
    ∀ first second, id < first -> id < second ->
      forest.unfoldStmt first id = forest.unfoldStmt second id := by
  induction id using Nat.strongRecOn with
  | ind id inductionHypothesis =>
      intro first second below_first below_second
      obtain ⟨first, rfl⟩ := Nat.exists_eq_add_one_of_ne_zero (Nat.ne_zero_of_lt below_first)
      obtain ⟨second, rfl⟩ := Nat.exists_eq_add_one_of_ne_zero (Nat.ne_zero_of_lt below_second)
      cases found : forest.stmts[id]? with
      | none => simp only [unfoldStmt, found]
      | some node =>
          rw [unfoldStmt_succ found, unfoldStmt_succ found]
          refine StmtForm.tree_congr (fun child named => ?_) node.line
          have child_lt := wellFounded.stmt_lt id node found child named
          exact inductionHypothesis child child_lt first second (by omega) (by omega)

/-- The tree of an expression is put together from the trees of the expressions that it names. -/
theorem expr_eq
    (wellFounded : forest.WellFounded)
    {form : ExprForm}
    (found : forest.exprs[id]? = some ⟨line, form⟩) :
    forest.expr id = form.tree forest.expr ⟨id, line⟩ := by
  have known : id < forest.exprs.size := (Array.getElem?_eq_some_iff.1 found).1
  rw [Forest.expr, unfoldExpr_succ found]
  refine ExprForm.tree_congr (fun child named => ?_) _
  have child_lt := wellFounded.expr_lt id _ found child named
  exact wellFounded.unfoldExpr_eq_expr (by omega) (by omega)

/-- The tree of a statement is put together from the trees of the nodes that it names. -/
theorem stmt_eq
    (wellFounded : forest.WellFounded)
    {form : StmtForm}
    (found : forest.stmts[id]? = some ⟨line, form⟩) :
    forest.stmt id = form.tree forest.expr forest.stmt line := by
  have known : id < forest.stmts.size := (Array.getElem?_eq_some_iff.1 found).1
  rw [Forest.stmt, unfoldStmt_succ found]
  refine StmtForm.tree_congr (fun child named => ?_) _
  have child_lt := wellFounded.stmt_lt id _ found child named
  exact wellFounded.unfoldStmt_eq child _ _ (by omega) (by omega)

end WellFounded

end Forest

namespace Program

/-- The statements that the body of a program reaches. -/
inductive ReachesStmt (program : Program) : StmtId -> Prop where
  | body {id : StmtId} (named : id ∈ program.body) : ReachesStmt program id
  | child {id child : StmtId} {node : StmtNode}
      (reached : ReachesStmt program id)
      (found : program.forest.stmts[id]? = some node)
      (named : child ∈ node.form.children) :
      ReachesStmt program child

/-- The expressions that the body of a program reaches. -/
inductive ReachesExpr (program : Program) : ExprId -> Prop where
  | value {id : StmtId} {value : ExprId} {node : StmtNode}
      (reached : program.ReachesStmt id)
      (found : program.forest.stmts[id]? = some node)
      (named : value ∈ node.form.values) :
      ReachesExpr program value
  | child {id child : ExprId} {node : ExprNode}
      (reached : ReachesExpr program id)
      (found : program.forest.exprs[id]? = some node)
      (named : child ∈ node.form.children) :
      ReachesExpr program child

end Program

end MiniLang
