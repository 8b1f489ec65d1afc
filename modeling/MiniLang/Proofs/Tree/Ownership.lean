import MiniLang.Proofs.Tree.Reachability

/-!
# Who names a node

All places of a forest that name a node, listed one by one.  A number that stands in such a list at
most once has at most one parent, and that parent names it once.
-/

namespace MiniLang

namespace Forest

/-- The numbers of expressions that the nodes of a forest name, once for each place. -/
def exprsNamed (forest : Forest) : List ExprId :=
  forest.exprs.toList.flatMap (fun node => node.form.children) ++
    forest.stmts.toList.flatMap (fun node => node.form.values)

/-- The numbers of statements that the nodes of a forest name, once for each place. -/
def stmtsNamed (forest : Forest) : List StmtId :=
  forest.stmts.toList.flatMap (fun node => node.form.children)

/-- The numbers of string constants that the statements of a forest write, in order. -/
def textsNamed (forest : Forest) : List Nat :=
  forest.stmts.toList.filterMap (fun node => node.form.text?)

variable (forest : Forest) (line : Line)

theorem count_exprsNamed_addExpr (form : ExprForm) (id : ExprId) :
    (forest.addExpr line form).2.exprsNamed.count id =
      forest.exprsNamed.count id + form.children.count id := by
  simp only [exprsNamed, addExpr, Array.toList_push, List.flatMap_append, List.flatMap_singleton,
    List.count_append]
  omega

theorem count_exprsNamed_addStmt (form : StmtForm) (id : ExprId) :
    (forest.addStmt line form).2.exprsNamed.count id =
      forest.exprsNamed.count id + form.values.count id := by
  simp only [exprsNamed, addStmt, Array.toList_push, List.flatMap_append, List.flatMap_singleton,
    List.count_append]
  omega

theorem count_stmtsNamed_addStmt (form : StmtForm) (id : StmtId) :
    (forest.addStmt line form).2.stmtsNamed.count id =
      forest.stmtsNamed.count id + form.children.count id := by
  simp only [stmtsNamed, addStmt, Array.toList_push, List.flatMap_append, List.flatMap_singleton,
    List.count_append]

/-- A statement that writes no string leaves the list of strings as it is. -/
theorem textsNamed_addStmt
    {form : StmtForm}
    (no_text : form.text? = none) :
    (forest.addStmt line form).2.textsNamed = forest.textsNamed := by
  simp [textsNamed, addStmt, no_text]

/-- The statement that writes a new string constant comes last. -/
theorem textsNamed_addText (bytes : List UInt8) :
    (forest.addText line bytes).2.textsNamed = forest.textsNamed ++ [forest.texts.size] := by
  simp [textsNamed, addText, addStmt, TextPool.add, StmtForm.text?]

end Forest

/-- How often a number is there to be named: once if it is that of a node. -/
def supply (size id : Nat) : Nat :=
  if id < size then 1 else 0

/-- One more node supplies its own number. -/
theorem supply_succ (size id : Nat) : supply (size + 1) id = supply size id + [size].count id := by
  simp only [supply, List.count_cons, List.count_nil, beq_iff_eq]
  split <;> split <;> split <;> omega

end MiniLang
