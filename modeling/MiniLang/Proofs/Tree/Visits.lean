import MiniLang.Proofs.Tree.WellFounded

/-!
# Visiting the nodes of a forest

A pass over a program visits nodes by their numbers: an expression after the expressions that it
names, from left to right, and a statement after its expressions and before the statements that it
names.  A node that is named twice is visited twice.  In a well-founded forest there is exactly one
such sequence of visits, and with a node it holds the expressions that the node names.
-/

namespace MiniLang

/-- A visit to a node of a forest. -/
inductive Visit where
  | expr (id : ExprId)
  | stmt (id : StmtId)
  deriving DecidableEq, Repr

namespace Forest

/-- Expressions are visited from left to right, each after the expressions that it names. -/
inductive VisitsExprs (forest : Forest) : List ExprId -> List Visit -> Prop where
  | nil : VisitsExprs forest [] []
  | cons {id : ExprId} {node : ExprNode} {rest : List ExprId} {inner later : List Visit}
      (found : forest.exprs[id]? = some node)
      (parts : VisitsExprs forest node.form.children inner)
      (others : VisitsExprs forest rest later) :
      VisitsExprs forest (id :: rest) (inner ++ .expr id :: later)

/-- Statements are visited in order, each after the expressions and before the statements that it
names. -/
inductive VisitsStmts (forest : Forest) : List StmtId -> List Visit -> Prop where
  | nil : VisitsStmts forest [] []
  | cons {id : StmtId} {node : StmtNode} {rest : List StmtId} {before inner later : List Visit}
      (found : forest.stmts[id]? = some node)
      (values : VisitsExprs forest node.form.values before)
      (parts : VisitsStmts forest node.form.children inner)
      (others : VisitsStmts forest rest later) :
      VisitsStmts forest (id :: rest) (before ++ .stmt id :: (inner ++ later))

variable {forest : Forest}

/-- The visits to given expressions are determined. -/
theorem VisitsExprs.unique
    {ids : List ExprId}
    {first second : List Visit}
    (firstVisits : forest.VisitsExprs ids first)
    (secondVisits : forest.VisitsExprs ids second) :
    first = second := by
  induction firstVisits generalizing second with
  | nil =>
      cases secondVisits
      rfl
  | cons found parts others partsHypothesis othersHypothesis =>
      cases secondVisits with
      | cons found' parts' others' =>
          obtain rfl := Option.some.inj (found.symm.trans found')
          rw [partsHypothesis parts', othersHypothesis others']

/-- The visits to given statements are determined. -/
theorem VisitsStmts.unique
    {ids : List StmtId}
    {first second : List Visit}
    (firstVisits : forest.VisitsStmts ids first)
    (secondVisits : forest.VisitsStmts ids second) :
    first = second := by
  induction firstVisits generalizing second with
  | nil =>
      cases secondVisits
      rfl
  | cons found values parts others partsHypothesis othersHypothesis =>
      cases secondVisits with
      | cons found' values' parts' others' =>
          obtain rfl := Option.some.inj (found.symm.trans found')
          rw [values.unique values', partsHypothesis parts', othersHypothesis others']

/-- The expressions of a well-founded forest can be visited. -/
theorem WellFounded.exists_visitsExprs
    (wellFounded : forest.WellFounded)
    (ids : List ExprId)
    (known : ∀ id ∈ ids, id < forest.exprs.size) :
    ∃ visits, forest.VisitsExprs ids visits := by
  -- The numbers get smaller from a node to those it names, so a bound on them carries the induction.
  suffices below : ∀ bound, ∀ ids : List ExprId, (∀ id ∈ ids, id < bound) ->
      (∀ id ∈ ids, id < forest.exprs.size) -> ∃ visits, forest.VisitsExprs ids visits from
    below _ ids known known
  intro bound
  induction bound with
  | zero =>
      intro ids small _
      obtain rfl : ids = [] :=
        List.eq_nil_iff_forall_not_mem.2 fun id present => Nat.not_lt_zero id (small id present)
      exact ⟨[], .nil⟩
  | succ bound boundHypothesis =>
      intro ids small known
      induction ids with
      | nil => exact ⟨[], .nil⟩
      | cons id rest restHypothesis =>
          have id_known := known id List.mem_cons_self
          have id_small := Nat.le_of_lt_succ (small id List.mem_cons_self)
          have found : forest.exprs[id]? = some forest.exprs[id] :=
            Array.getElem?_eq_getElem id_known
          have child_lt := wellFounded.expr_lt id _ found
          obtain ⟨inner, parts⟩ := boundHypothesis forest.exprs[id].form.children
            (fun child named => Nat.lt_of_lt_of_le (child_lt child named) id_small)
            (fun child named => Nat.lt_trans (child_lt child named) id_known)
          obtain ⟨later, others⟩ := restHypothesis
            (fun other present => small other (List.mem_cons_of_mem _ present))
            (fun other present => known other (List.mem_cons_of_mem _ present))
          exact ⟨_, .cons found parts others⟩

/-- The statements of a well-founded forest can be visited. -/
theorem WellFounded.exists_visitsStmts
    (wellFounded : forest.WellFounded)
    (ids : List StmtId)
    (known : ∀ id ∈ ids, id < forest.stmts.size) :
    ∃ visits, forest.VisitsStmts ids visits := by
  suffices below : ∀ bound, ∀ ids : List StmtId, (∀ id ∈ ids, id < bound) ->
      (∀ id ∈ ids, id < forest.stmts.size) -> ∃ visits, forest.VisitsStmts ids visits from
    below _ ids known known
  intro bound
  induction bound with
  | zero =>
      intro ids small _
      obtain rfl : ids = [] :=
        List.eq_nil_iff_forall_not_mem.2 fun id present => Nat.not_lt_zero id (small id present)
      exact ⟨[], .nil⟩
  | succ bound boundHypothesis =>
      intro ids small known
      induction ids with
      | nil => exact ⟨[], .nil⟩
      | cons id rest restHypothesis =>
          have id_known := known id List.mem_cons_self
          have id_small := Nat.le_of_lt_succ (small id List.mem_cons_self)
          have found : forest.stmts[id]? = some forest.stmts[id] :=
            Array.getElem?_eq_getElem id_known
          have child_lt := wellFounded.stmt_lt id _ found
          obtain ⟨before, values⟩ :=
            wellFounded.exists_visitsExprs _ (wellFounded.value_lt id _ found)
          obtain ⟨inner, parts⟩ := boundHypothesis forest.stmts[id].form.children
            (fun child named => Nat.lt_of_lt_of_le (child_lt child named) id_small)
            (fun child named => Nat.lt_trans (child_lt child named) id_known)
          obtain ⟨later, others⟩ := restHypothesis
            (fun other present => small other (List.mem_cons_of_mem _ present))
            (fun other present => known other (List.mem_cons_of_mem _ present))
          exact ⟨_, .cons found values parts others⟩

/-- Each of the given expressions is visited. -/
theorem VisitsExprs.mem
    {ids : List ExprId}
    {visits : List Visit}
    (made : forest.VisitsExprs ids visits)
    {id : ExprId}
    (given : id ∈ ids) :
    .expr id ∈ visits := by
  induction made with
  | nil => exact absurd given List.not_mem_nil
  | cons found parts others _ othersHypothesis =>
      rcases List.mem_cons.1 given with rfl | later
      · exact List.mem_append_right _ List.mem_cons_self
      · exact List.mem_append_right _ (List.mem_cons_of_mem _ (othersHypothesis later))

/-- With an expression the expressions that it names are visited. -/
theorem VisitsExprs.child_mem
    {ids : List ExprId}
    {visits : List Visit}
    (made : forest.VisitsExprs ids visits)
    {id : ExprId}
    {node : ExprNode}
    (visited : .expr id ∈ visits)
    (found : forest.exprs[id]? = some node)
    {child : ExprId}
    (named : child ∈ node.form.children) :
    .expr child ∈ visits := by
  induction made with
  | nil => exact absurd visited List.not_mem_nil
  | cons ownFound parts others partsHypothesis othersHypothesis =>
      rcases List.mem_append.1 visited with inside | after
      · exact List.mem_append_left _ (partsHypothesis inside)
      · rcases List.mem_cons.1 after with same | later
        · cases same
          obtain rfl := Option.some.inj (found.symm.trans ownFound)
          exact List.mem_append_left _ (parts.mem named)
        · exact List.mem_append_right _ (List.mem_cons_of_mem _ (othersHypothesis later))

/-- Visits to expressions are no visits to statements. -/
theorem VisitsExprs.not_stmt
    {ids : List ExprId}
    {visits : List Visit}
    (made : forest.VisitsExprs ids visits)
    (id : StmtId) :
    .stmt id ∉ visits := by
  induction made with
  | nil => exact List.not_mem_nil
  | cons found parts others partsHypothesis othersHypothesis =>
      simp [partsHypothesis, othersHypothesis]

/-- Each of the given statements is visited. -/
theorem VisitsStmts.mem
    {ids : List StmtId}
    {visits : List Visit}
    (made : forest.VisitsStmts ids visits)
    {id : StmtId}
    (given : id ∈ ids) :
    .stmt id ∈ visits := by
  induction made with
  | nil => exact absurd given List.not_mem_nil
  | cons found values parts others _ othersHypothesis =>
      rcases List.mem_cons.1 given with rfl | later
      · exact List.mem_append_right _ List.mem_cons_self
      · exact List.mem_append_right _ (List.mem_cons_of_mem _
          (List.mem_append_right _ (othersHypothesis later)))

/-- With an expression the expressions that it names are visited. -/
theorem VisitsStmts.child_mem
    {ids : List StmtId}
    {visits : List Visit}
    (made : forest.VisitsStmts ids visits)
    {id : ExprId}
    {node : ExprNode}
    (visited : .expr id ∈ visits)
    (found : forest.exprs[id]? = some node)
    {child : ExprId}
    (named : child ∈ node.form.children) :
    .expr child ∈ visits := by
  induction made with
  | nil => exact absurd visited List.not_mem_nil
  | cons ownFound values parts others partsHypothesis othersHypothesis =>
      simp only [List.mem_append, List.mem_cons, reduceCtorEq, false_or] at visited ⊢
      rcases visited with before | inside | later
      · exact .inl (values.child_mem before found named)
      · exact .inr (.inl (partsHypothesis inside))
      · exact .inr (.inr (othersHypothesis later))

/-- With a statement the expressions that it names are visited. -/
theorem VisitsStmts.value_mem
    {ids : List StmtId}
    {visits : List Visit}
    (made : forest.VisitsStmts ids visits)
    {id : StmtId}
    {node : StmtNode}
    (visited : .stmt id ∈ visits)
    (found : forest.stmts[id]? = some node)
    {value : ExprId}
    (named : value ∈ node.form.values) :
    .expr value ∈ visits := by
  induction made with
  | nil => exact absurd visited List.not_mem_nil
  | cons ownFound values parts others partsHypothesis othersHypothesis =>
      simp only [List.mem_append, List.mem_cons, reduceCtorEq, false_or, Visit.stmt.injEq]
        at visited ⊢
      rcases visited with before | same | inside | later
      · exact absurd before (values.not_stmt id)
      · subst same
        obtain rfl := Option.some.inj (found.symm.trans ownFound)
        exact .inl (values.mem named)
      · exact .inr (.inl (partsHypothesis inside))
      · exact .inr (.inr (othersHypothesis later))

end Forest

end MiniLang
