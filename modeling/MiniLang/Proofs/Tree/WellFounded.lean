import MiniLang.Program

/-!
# Well-founded forests

A forest is well-founded when every node names only nodes that were added before it and string
constants that exist.  Forests that are built bottom-up, out of numbers that were handed out before,
are well-founded.

In a well-founded forest unfolding reaches every leaf: no tree of it has a dangling part, and each
part of a tree is again the tree of the node that it names.
-/

namespace MiniLang

/-- The expressions that an expression names. -/
def ExprForm.children : ExprForm -> List Nat
  | .unary _ operand => [operand]
  | .binary _ left right => [left, right]
  | .assign _ value => [value]
  | _ => []

namespace StmtForm

/-- The statements that a statement names. -/
def children : StmtForm -> List Nat
  | .block body => body
  | .branch _ yes no? => yes :: no?.toList
  | .loop _ body => [body]
  | _ => []

/-- The expressions that a statement names. -/
def values : StmtForm -> List Nat
  | .expr value => [value]
  | .branch condition _ _ => [condition]
  | .loop condition _ => [condition]
  | .write value _ => [value]
  | _ => []

/-- The string constant that a statement names. -/
def text? : StmtForm -> Option Nat
  | .writeText number => some number
  | _ => none

end StmtForm

namespace Forest

/-- Every node names only earlier nodes and existing string constants. -/
structure WellFounded (forest : Forest) : Prop where
  /-- An expression names only earlier expressions. -/
  expr_lt : ∀ (id : Nat) (node : ExprNode), forest.exprs[id]? = some node ->
    ∀ child ∈ node.form.children, child < id
  /-- A statement names only earlier statements. -/
  stmt_lt : ∀ (id : Nat) (node : StmtNode), forest.stmts[id]? = some node ->
    ∀ child ∈ node.form.children, child < id
  /-- The expressions that a statement names exist. -/
  value_lt : ∀ (id : Nat) (node : StmtNode), forest.stmts[id]? = some node ->
    ∀ value ∈ node.form.values, value < forest.exprs.size
  /-- The string constant that a statement names exists. -/
  text_lt : ∀ (id : Nat) (node : StmtNode), forest.stmts[id]? = some node ->
    ∀ number ∈ node.form.text?, number < forest.texts.size

/-- The forests that come of adding nodes bottom-up: each number that a node names was handed out
before.  Constants are added together with the statements that write them. -/
inductive Built : Forest -> Prop where
  | empty : Built .empty
  | addExpr {forest : Forest} (line : Line) (form : ExprForm)
      (built : Built forest)
      (known : ∀ child ∈ form.children, child < forest.exprs.size) :
      Built (forest.addExpr line form).2
  | addStmt {forest : Forest} (line : Line) (form : StmtForm)
      (built : Built forest)
      (children_known : ∀ child ∈ form.children, child < forest.stmts.size)
      (values_known : ∀ value ∈ form.values, value < forest.exprs.size)
      (no_text : form.text? = none) :
      Built (forest.addStmt line form).2
  | addText {forest : Forest} (line : Line) (bytes : List UInt8)
      (built : Built forest) :
      Built (forest.addText line bytes).2

namespace WellFounded

/-- The forest without nodes is well-founded. -/
theorem empty : WellFounded .empty where
  expr_lt := by simp [Forest.empty]
  stmt_lt := by simp [Forest.empty]
  value_lt := by simp [Forest.empty]
  text_lt := by simp [Forest.empty]

/-- Adding an expression over existing ones keeps a forest well-founded. -/
theorem addExpr
    {forest : Forest}
    (wellFounded : forest.WellFounded)
    (line : Line)
    (form : ExprForm)
    (known : ∀ child ∈ form.children, child < forest.exprs.size) :
    (forest.addExpr line form).2.WellFounded where
  expr_lt := by
    intro id node found child named
    simp only [Forest.addExpr, Array.getElem?_push] at found
    split at found
    · cases found
      simp [*]
    · exact wellFounded.expr_lt id node found child named
  stmt_lt := wellFounded.stmt_lt
  value_lt := by
    intro id node found value named
    have earlier := wellFounded.value_lt id node found value named
    simp only [Forest.addExpr, Array.size_push]
    omega
  text_lt := wellFounded.text_lt

/-- Adding a statement over existing nodes keeps a forest well-founded. -/
theorem addStmt
    {forest : Forest}
    (wellFounded : forest.WellFounded)
    (line : Line)
    (form : StmtForm)
    (children_known : ∀ child ∈ form.children, child < forest.stmts.size)
    (values_known : ∀ value ∈ form.values, value < forest.exprs.size)
    (text_known : ∀ number ∈ form.text?, number < forest.texts.size) :
    (forest.addStmt line form).2.WellFounded where
  expr_lt := wellFounded.expr_lt
  stmt_lt := by
    intro id node found child named
    simp only [Forest.addStmt, Array.getElem?_push] at found
    split at found
    · cases found
      simp [*]
    · exact wellFounded.stmt_lt id node found child named
  value_lt := by
    intro id node found value named
    simp only [Forest.addStmt, Array.getElem?_push] at found
    split at found
    · cases found
      exact values_known value named
    · exact wellFounded.value_lt id node found value named
  text_lt := by
    intro id node found number named
    simp only [Forest.addStmt, Array.getElem?_push] at found
    split at found
    · cases found
      exact text_known number named
    · exact wellFounded.text_lt id node found number named

/-- Adding a string constant and its statement keeps a forest well-founded. -/
theorem addText
    {forest : Forest}
    (wellFounded : forest.WellFounded)
    (line : Line)
    (bytes : List UInt8) :
    (forest.addText line bytes).2.WellFounded := by
  let pooled : Forest := { forest with texts := (forest.texts.add bytes).2 }
  have size_eq : pooled.texts.size = forest.texts.size + 1 := by
    simp [pooled, TextPool.add, TextPool.size]
  have pooledWellFounded : pooled.WellFounded :=
    { expr_lt := wellFounded.expr_lt
      stmt_lt := wellFounded.stmt_lt
      value_lt := wellFounded.value_lt
      text_lt := by
        intro id node found number named
        have earlier := wellFounded.text_lt id node found number named
        omega }
  refine pooledWellFounded.addStmt line (.writeText forest.texts.size) ?_ ?_ ?_
  · simp [StmtForm.children]
  · simp [StmtForm.values]
  · simp [StmtForm.text?, size_eq]

end WellFounded

/-- A forest that was built bottom-up is well-founded. -/
theorem Built.wellFounded
    {forest : Forest}
    (built : forest.Built) :
    forest.WellFounded := by
  induction built with
  | empty => exact .empty
  | addExpr line form _ known wellFounded =>
      exact wellFounded.addExpr line form known
  | addStmt line form _ children_known values_known no_text wellFounded =>
      exact wellFounded.addStmt line form children_known values_known (by simp [no_text])
  | addText line bytes _ wellFounded =>
      exact wellFounded.addText line bytes

/-- A site leads to a tree: it names a node of the forest, and the tree is that of the node. -/
def LeadsTo (forest : Forest) (site : Site) (tree : Expr) : Prop :=
  site.id < forest.exprs.size ∧ forest.expr site.id = tree

end Forest

/-- No part of an expression is dangling, and the site of each part leads to that part. -/
def Expr.Grounded (forest : Forest) : Expr -> Prop
  | .name site spelling => forest.LeadsTo site (.name site spelling)
  | .int site value => forest.LeadsTo site (.int site value)
  | .double site bits => forest.LeadsTo site (.double site bits)
  | .bool site value => forest.LeadsTo site (.bool site value)
  | .unary site op operand =>
      forest.LeadsTo site (.unary site op operand) ∧ (operand ()).Grounded forest
  | .binary site op left right =>
      forest.LeadsTo site (.binary site op left right) ∧ (left ()).Grounded forest ∧
        (right ()).Grounded forest
  | .assign site target value =>
      forest.LeadsTo site (.assign site target value) ∧ (value ()).Grounded forest
  | .dangling _ => False

/-- No part of a statement is dangling, and its expressions are grounded. -/
def Stmt.Grounded (forest : Forest) : Stmt -> Prop
  | .done => True
  | .seq first rest => first.Grounded forest ∧ rest.Grounded forest
  | .block _ body => (body ()).Grounded forest
  | .expr _ value => value.Grounded forest
  | .branch _ condition yes no =>
      condition.Grounded forest ∧ (yes ()).Grounded forest ∧ (no ()).Grounded forest
  | .loop _ condition body => condition.Grounded forest ∧ (body ()).Grounded forest
  | .write _ value _ => value.Grounded forest
  | .writeText _ number => number < forest.texts.size
  | .read _ _ _ => True
  | .leave _ => True
  | .dangling _ => False

/-- A sequence is grounded when each of its statements is. -/
theorem Stmt.grounded_ofList
    {forest : Forest}
    {statements : List Stmt}
    (each : ∀ statement ∈ statements, statement.Grounded forest) :
    (Stmt.ofList statements).Grounded forest := by
  induction statements with
  | nil => trivial
  | cons first rest inductionHypothesis =>
      refine ⟨each first (by simp), inductionHypothesis ?_⟩
      intro statement present
      exact each statement (by simp [present])

namespace Forest

variable {forest : Forest}

/-- In a well-founded forest any two depths beyond the number of a node unfold it alike. -/
theorem WellFounded.unfoldExpr_eq
    (wellFounded : forest.WellFounded)
    (id : Nat) :
    ∀ first second, id < first -> id < second ->
      forest.unfoldExpr first id = forest.unfoldExpr second id := by
  induction id using Nat.strongRecOn with
  | ind id inductionHypothesis =>
      intro first second below_first below_second
      obtain ⟨first, rfl⟩ := Nat.exists_eq_add_one_of_ne_zero (Nat.ne_zero_of_lt below_first)
      obtain ⟨second, rfl⟩ := Nat.exists_eq_add_one_of_ne_zero (Nat.ne_zero_of_lt below_second)
      unfold unfoldExpr
      split
      · rfl
      · next line form found =>
        have child_eq : ∀ child ∈ form.children,
            forest.unfoldExpr first child = forest.unfoldExpr second child := by
          intro child named
          have child_lt : child < id := wellFounded.expr_lt id _ found child named
          exact inductionHypothesis child child_lt first second (by omega) (by omega)
        cases form <;> simp_all [ExprForm.children]

/-- In a well-founded forest a node unfolds to its tree as soon as the depth exceeds its number. -/
theorem WellFounded.unfoldExpr_eq_expr
    (wellFounded : forest.WellFounded)
    {depth : Nat}
    {id : Nat}
    (below : id < depth)
    (known : id < forest.exprs.size) :
    forest.unfoldExpr depth id = forest.expr id :=
  wellFounded.unfoldExpr_eq id depth (forest.exprs.size + 1) below (by omega)

/-- The tree of every expression of a well-founded forest is grounded. -/
theorem WellFounded.grounded_expr
    (wellFounded : forest.WellFounded)
    (id : Nat)
    (known : id < forest.exprs.size) :
    (forest.expr id).Grounded forest := by
  induction id using Nat.strongRecOn with
  | ind id inductionHypothesis =>
      obtain ⟨⟨line, form⟩, found⟩ : ∃ node, forest.exprs[id]? = some node :=
        ⟨forest.exprs[id], by simp [known]⟩
      have child_lt : ∀ child ∈ form.children, child < id :=
        wellFounded.expr_lt id _ found
      have child_eq : ∀ child ∈ form.children,
          forest.unfoldExpr forest.exprs.size child = forest.expr child := by
        intro child named
        have below := child_lt child named
        exact wellFounded.unfoldExpr_eq_expr (by omega) (by omega)
      have child_grounded : ∀ child ∈ form.children,
          (forest.expr child).Grounded forest := by
        intro child named
        have below := child_lt child named
        exact inductionHypothesis child below (by omega)
      have leads : forest.LeadsTo ⟨id, line⟩ (forest.expr id) := ⟨known, rfl⟩
      unfold expr unfoldExpr at leads ⊢
      cases form <;>
        simp_all [ExprForm.children, Expr.Grounded]

/-- Unfolding a statement of a well-founded forest beyond its number gives a grounded tree. -/
theorem WellFounded.grounded_unfoldStmt
    (wellFounded : forest.WellFounded)
    (depth : Nat) :
    ∀ id : Nat, id < depth -> id < forest.stmts.size ->
      (forest.unfoldStmt depth id).Grounded forest := by
  induction depth with
  | zero =>
      intro id below
      exact absurd below (Nat.not_lt_zero id)
  | succ depth inductionHypothesis =>
      intro id below known
      obtain ⟨⟨line, form⟩, found⟩ : ∃ node, forest.stmts[id]? = some node :=
        ⟨forest.stmts[id], by simp [known]⟩
      have child_grounded : ∀ child ∈ form.children,
          (forest.unfoldStmt depth child).Grounded forest := by
        intro child named
        have child_lt : child < id := wellFounded.stmt_lt id _ found child named
        exact inductionHypothesis child (by omega) (by omega)
      have value_grounded : ∀ value ∈ form.values, (forest.expr value).Grounded forest := by
        intro value named
        exact wellFounded.grounded_expr value (wellFounded.value_lt id _ found value named)
      have text_lt := wellFounded.text_lt id _ found
      unfold unfoldStmt
      rw [found]
      cases form with
      | block body =>
          refine Stmt.grounded_ofList ?_
          intro statement present
          obtain ⟨child, named, rfl⟩ := List.mem_map.1 present
          exact child_grounded child named
      | branch condition yes no? =>
          cases no? <;>
            simp_all [Stmt.Grounded, StmtForm.children, StmtForm.values]
      | _ =>
          simp_all [Stmt.Grounded, StmtForm.children, StmtForm.values, StmtForm.text?]

end Forest

/-- A program whose forest is well-founded, whose body names existing statements, and whose
variables are those that its declarations bring into being. -/
structure Program.WellFounded (program : Program) : Prop where
  forest : program.forest.WellFounded
  body_lt : ∀ id ∈ program.body, id < program.forest.stmts.size
  scope_eq : program.scope = (Scope.empty.declareAll program.declarations).1

/-- The programs that are put together from a forest that was built bottom-up and a body of
statements in it. -/
inductive Program.Built : Program -> Prop where
  | assemble (declarations : List Declaration) (body : List StmtId) (forest : Forest)
      (built : forest.Built)
      (known : ∀ id ∈ body, id < forest.stmts.size) :
      Built (Program.assemble declarations body forest).1

namespace Program

/-- A program that was built bottom-up is well-founded. -/
theorem Built.wellFounded
    {program : Program}
    (built : program.Built) :
    program.WellFounded := by
  cases built with
  | assemble declarations body forest built known =>
      exact ⟨built.wellFounded, known, rfl⟩

/-- The tree of a well-founded program is grounded. -/
theorem WellFounded.grounded_tree
    {program : Program}
    (wellFounded : program.WellFounded) :
    program.tree.Grounded program.forest := by
  refine Stmt.grounded_ofList ?_
  intro statement present
  obtain ⟨id, named, rfl⟩ := List.mem_map.1 present
  have known := wellFounded.body_lt id named
  exact wellFounded.forest.grounded_unfoldStmt _ id (Nat.lt_succ_of_lt known) known

end Program

end MiniLang
