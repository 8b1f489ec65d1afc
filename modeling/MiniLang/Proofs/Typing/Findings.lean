import MiniLang.Proofs.Diagnostic.Limit
import MiniLang.Proofs.Tree.Visits
import MiniLang.Proofs.Typing.Decision
import MiniLang.Proofs.Typing.Offences

/-!
# What checking reports

Checking visits the nodes of a program in order and reports the rule that each of them breaks.  The
diagnostics are so known node by node, although a stand-in for a missing type is passed on upwards and
may make the nodes above it offend as well.
-/

namespace MiniLang

namespace Program

/-- The rule that a visited node of a program breaks. -/
inductive Offends (program : Program) (tags : TagTable) : Visit -> Line × TypeError -> Prop where
  | expr {id : ExprId} {node : ExprNode} {offence : Line × TypeError}
      (found : program.forest.exprs[id]? = some node)
      (offends : node.form.Offends program.scope tags node.line offence) :
      Offends program tags (.expr id) offence
  | stmt {id : StmtId} {node : StmtNode} {offence : Line × TypeError}
      (found : program.forest.stmts[id]? = some node)
      (offends : node.form.Offends program.scope tags node.line offence) :
      Offends program tags (.stmt id) offence

/-- Diagnostics for visited nodes: one for each that breaks a rule, and none for the others. -/
inductive Reports (program : Program) (tags : TagTable) : List Visit -> List Diagnostic -> Prop where
  | nil : Reports program tags [] []
  | offending {visit : Visit} {line : Line} {error : TypeError} {rest : List Visit}
      {reported : List Diagnostic}
      (offends : program.Offends tags visit (line, error))
      (only : ∀ other, program.Offends tags visit other -> other = (line, error))
      (later : Reports program tags rest reported) :
      Reports program tags (visit :: rest) (error.diagnostic line :: reported)
  | fine {visit : Visit} {rest : List Visit} {reported : List Diagnostic}
      (keeps : ∀ offence, ¬program.Offends tags visit offence)
      (later : Reports program tags rest reported) :
      Reports program tags (visit :: rest) reported

end Program

variable {scope : Scope} {tags : TagTable}

/-- An expression is tagged after the expressions that it names. -/
theorem ExprForm.marks_tree
    (form : ExprForm)
    (trees : ExprId -> Expr)
    (site : Site) :
    (form.tree trees site).marks scope =
      form.children.flatMap (fun child => (trees child).marks scope) ++
        [(site.id, (form.tree trees site).tag scope)] := by
  cases form <;> simp [ExprForm.tree, ExprForm.children, Expr.marks]

/-- A statement tags what its expressions and its statements tag. -/
theorem StmtForm.marks_tree
    (form : StmtForm)
    (values : ExprId -> Expr)
    (trees : StmtId -> Stmt)
    (line : Line) :
    (form.tree values trees line).marks scope =
      form.values.flatMap (fun value => (values value).marks scope) ++
        form.children.flatMap (fun child => (trees child).marks scope) := by
  cases form with
  | block body =>
      simp [StmtForm.tree, StmtForm.values, StmtForm.children, Stmt.marks, Stmt.marks_ofList,
        List.flatMap_map]
  | branch condition yes no? =>
      cases no? <;> simp [StmtForm.tree, StmtForm.values, StmtForm.children, Stmt.marks]
  | _ => simp [StmtForm.tree, StmtForm.values, StmtForm.children, Stmt.marks]

namespace Forest

variable {forest : Forest}

/-- Every visited expression is tagged with the tag of its tree. -/
theorem VisitsExprs.marked
    (scope : Scope)
    (wellFounded : forest.WellFounded)
    {ids : List ExprId}
    {visits : List Visit}
    (made : forest.VisitsExprs ids visits)
    {id : ExprId}
    (visited : .expr id ∈ visits) :
    (id, (forest.expr id).tag scope) ∈ ids.flatMap fun id => (forest.expr id).marks scope := by
  induction made with
  | nil => exact absurd visited List.not_mem_nil
  | cons found parts others partsHypothesis othersHypothesis =>
      rw [List.flatMap_cons, wellFounded.expr_eq found, ExprForm.marks_tree,
        ← wellFounded.expr_eq found]
      simp only [List.mem_append, List.mem_cons, Visit.expr.injEq] at visited ⊢
      rcases visited with inside | rfl | later
      · exact .inl (.inl (partsHypothesis inside))
      · exact .inl (.inr (.inl rfl))
      · exact .inr (othersHypothesis later)

/-- Every visited expression is tagged with the tag of its tree. -/
theorem VisitsStmts.marked
    (scope : Scope)
    (wellFounded : forest.WellFounded)
    {ids : List StmtId}
    {visits : List Visit}
    (made : forest.VisitsStmts ids visits)
    {id : ExprId}
    (visited : .expr id ∈ visits) :
    (id, (forest.expr id).tag scope) ∈ ids.flatMap fun id => (forest.stmt id).marks scope := by
  induction made with
  | nil => exact absurd visited List.not_mem_nil
  | cons found values parts others partsHypothesis othersHypothesis =>
      rw [List.flatMap_cons, wellFounded.stmt_eq found, StmtForm.marks_tree]
      simp only [List.mem_append, List.mem_cons, reduceCtorEq, false_or] at visited ⊢
      rcases visited with before | inside | later
      · exact .inl (.inl (values.marked scope wellFounded before))
      · exact .inl (.inr (partsHypothesis inside))
      · exact .inr (othersHypothesis later)

end Forest

namespace Program

variable {program : Program}

/-- The table that checking returns holds the tag of every visited expression. -/
theorem WellFounded.get?_of_visited
    (wellFounded : program.WellFounded)
    {visits : List Visit}
    (made : program.forest.VisitsStmts program.body visits)
    {id : ExprId}
    (visited : .expr id ∈ visits) :
    ((TagTable.blank program.forest).setAll (program.tree.marks program.scope)).get? id =
      some ((program.forest.expr id).tag program.scope) := by
  have marked := made.marked program.scope wellFounded.forest visited
  rw [← List.flatMap_map, ← Stmt.marks_ofList] at marked
  exact wellFounded.holds_marks _ marked

theorem Reports.append
    {first second : List Visit}
    {reported reported' : List Diagnostic}
    (earlier : program.Reports tags first reported)
    (later : program.Reports tags second reported') :
    program.Reports tags (first ++ second) (reported ++ reported') := by
  induction earlier with
  | nil => exact later
  | offending offends only _ inductionHypothesis => exact .offending offends only inductionHypothesis
  | fine keeps _ inductionHypothesis => exact .fine keeps inductionHypothesis

/-- The diagnostics of breaches. -/
def diagnosticsOf (breaches : List (Line × TypeError)) : List Diagnostic :=
  breaches.map fun breach => breach.2.diagnostic breach.1

/-- A visit is reported with the one rule that its node breaks, if there is one. -/
theorem reports_visit
    {visit : Visit}
    {own : Option (Line × TypeError)}
    (own_iff : ∀ offence, program.Offends tags visit offence ↔ own = some offence) :
    program.Reports tags [visit] (diagnosticsOf own.toList) := by
  cases own with
  | none =>
      refine .fine (fun offence offends => ?_) .nil
      cases (own_iff offence).1 offends
  | some offence =>
      refine .offending ((own_iff offence).2 rfl) (fun other offends => ?_) .nil
      exact (Option.some.inj ((own_iff other).1 offends)).symm

theorem offends_expr_iff
    {id : ExprId}
    {node : ExprNode}
    (found : program.forest.exprs[id]? = some node)
    (offence : Line × TypeError) :
    program.Offends tags (.expr id) offence ↔
      node.form.Offends program.scope tags node.line offence := by
  constructor
  · intro offends
    cases offends with
    | expr otherFound offends =>
        obtain rfl := Option.some.inj (otherFound.symm.trans found)
        exact offends
  · exact .expr found

theorem offends_stmt_iff
    {id : StmtId}
    {node : StmtNode}
    (found : program.forest.stmts[id]? = some node)
    (offence : Line × TypeError) :
    program.Offends tags (.stmt id) offence ↔
      node.form.Offends program.scope tags node.line offence := by
  constructor
  · intro offends
    cases offends with
    | stmt otherFound offends =>
        obtain rfl := Option.some.inj (otherFound.symm.trans found)
        exact offends
  · exact .stmt found

/-- Visiting expressions reports the breaches in them. -/
theorem reports_exprs
    (wellFounded : program.forest.WellFounded)
    {ids : List ExprId}
    {visits : List Visit}
    (made : program.forest.VisitsExprs ids visits)
    (tagged : ∀ id, .expr id ∈ visits ->
      tags.get? id = some ((program.forest.expr id).tag program.scope)) :
    program.Reports tags visits
      (diagnosticsOf (ids.flatMap fun id => (program.forest.expr id).breaches program.scope)) := by
  induction made with
  | nil => exact .nil
  | @cons id node rest inner later found parts others partsHypothesis othersHypothesis =>
      have child_tagged : ∀ child ∈ node.form.children,
          tags.get? child = some ((program.forest.expr child).tag program.scope) := by
        intro child named
        exact tagged child (List.mem_append_left _ (parts.mem named))
      obtain ⟨own, breaches_eq, own_iff⟩ := ExprForm.exists_offence child_tagged ⟨id, node.line⟩
      have own_reports := reports_visit fun offence =>
        (offends_expr_iff found offence).trans (own_iff offence)
      have inner_reports := partsHypothesis fun other inside =>
        tagged other (List.mem_append_left _ inside)
      have later_reports := othersHypothesis fun other after =>
        tagged other (List.mem_append_right _ (List.mem_cons_of_mem _ after))
      rw [List.flatMap_cons, wellFounded.expr_eq found, breaches_eq]
      simpa [diagnosticsOf] using inner_reports.append (own_reports.append later_reports)

/-- Visiting statements reports the breaches in them. -/
theorem reports_stmts
    (wellFounded : program.forest.WellFounded)
    {ids : List StmtId}
    {visits : List Visit}
    (made : program.forest.VisitsStmts ids visits)
    (tagged : ∀ id, .expr id ∈ visits ->
      tags.get? id = some ((program.forest.expr id).tag program.scope)) :
    program.Reports tags visits
      (diagnosticsOf (ids.flatMap fun id => (program.forest.stmt id).breaches program.scope)) := by
  induction made with
  | nil => exact .nil
  | @cons id node rest before inner later found values parts others partsHypothesis
      othersHypothesis =>
      have value_tagged : ∀ value ∈ node.form.values,
          tags.get? value = some ((program.forest.expr value).tag program.scope) := by
        intro value named
        exact tagged value (List.mem_append_left _ (values.mem named))
      obtain ⟨own, breaches_eq, own_iff⟩ :=
        StmtForm.exists_offence value_tagged program.forest.stmt node.line
      have own_reports := reports_visit fun offence =>
        (offends_stmt_iff found offence).trans (own_iff offence)
      have before_reports := reports_exprs wellFounded values fun other present =>
        tagged other (List.mem_append_left _ present)
      have inner_reports := partsHypothesis fun other inside =>
        tagged other (by simp [inside])
      have later_reports := othersHypothesis fun other after =>
        tagged other (by simp [after])
      rw [List.flatMap_cons, wellFounded.stmt_eq found, breaches_eq]
      simpa [diagnosticsOf] using
        before_reports.append (own_reports.append (inner_reports.append later_reports))

/-- What checking returns reports the visits that it makes. -/
theorem WellFounded.reports_of_check
    (wellFounded : program.WellFounded)
    {visits : List Visit}
    (made : program.forest.VisitsStmts program.body visits)
    {reported : List Diagnostic}
    (checked : program.check = .ok (tags, reported)) :
    program.Reports tags visits reported := by
  rw [wellFounded.check_eq] at checked
  obtain ⟨rfl, rfl⟩ := Prod.mk.inj (Except.ok.inj checked)
  rw [Program.tree, Forest.sequence, Stmt.breaches_ofList, List.flatMap_map]
  exact reports_stmts wellFounded.forest made fun id visited =>
    wellFounded.get?_of_visited made visited

/-- Statements of two programs that test the same condition, whatever their bodies are: they belong
to the same construct and stand on the same line, and their conditions have the same tree. -/
def SameTest (first second : Program) (id otherId : StmtId) : Prop :=
  ∃ (line : Line) (construct : Construct) (form otherForm : StmtForm) (test otherTest : ExprId),
    first.forest.stmts[id]? = some ⟨line, form⟩ ∧ form.test? = some (construct, test) ∧
    second.forest.stmts[otherId]? = some ⟨line, otherForm⟩ ∧
    otherForm.test? = some (construct, otherTest) ∧
    first.forest.expr test = second.forest.expr otherTest

/-- A condition is one of the expressions that a statement names. -/
theorem mem_values_of_test
    {form : StmtForm}
    {construct : Construct}
    {test : ExprId}
    (tests : form.test? = some (construct, test)) :
    test ∈ form.values := by
  cases form <;> simp_all [StmtForm.test?, StmtForm.values]

/-- What the condition of a statement breaks does not depend on the bodies of the statement. -/
theorem SameTest.offends_iff
    {first second : Program}
    {firstTags secondTags : TagTable}
    {id otherId : StmtId}
    (same : first.SameTest second id otherId)
    (scope_eq : second.scope = first.scope)
    (firstTagged : ∀ node, first.forest.stmts[id]? = some node -> ∀ value ∈ node.form.values,
      firstTags.get? value = some ((first.forest.expr value).tag first.scope))
    (secondTagged : ∀ node, second.forest.stmts[otherId]? = some node ->
      ∀ value ∈ node.form.values,
        secondTags.get? value = some ((second.forest.expr value).tag second.scope))
    (offence : Line × TypeError) :
    first.Offends firstTags (.stmt id) offence ↔
      second.Offends secondTags (.stmt otherId) offence := by
  obtain ⟨line, construct, form, otherForm, test, otherTest, found, tests, otherFound, otherTests,
    tree_eq⟩ := same
  rw [offends_stmt_iff found, offends_stmt_iff otherFound,
    StmtForm.offends_test_iff form tests (firstTagged _ found _ (mem_values_of_test tests)),
    StmtForm.offends_test_iff otherForm otherTests
      (secondTagged _ otherFound _ (mem_values_of_test otherTests)),
    tree_eq, scope_eq]

end Program

/-- Checking reports one diagnostic for each visited node that offends with respect to the tags of
the expressions that it names, in the order of the visits, and nothing else.  There is one sequence
of visits only, and the tag of each visited expression comes by the rules from the tags of those that
it names.  Every log counts all of the diagnostics and keeps them as far as its limit reaches.  What
is reported about a condition is the same in every program that tests it, whatever the bodies are. -/
theorem offences_reported_once_in_order
    {program : Program}
    (wellFounded : program.WellFounded) :
    ∃ tags visits reported,
      program.check = .ok (tags, reported) ∧
      (∀ sequence, program.forest.VisitsStmts program.body sequence ↔ sequence = visits) ∧
      program.Reports tags visits reported ∧
      (∀ id node, .expr id ∈ visits -> program.forest.exprs[id]? = some node ->
        ∃ tag, tags.get? id = some tag ∧ node.form.HasTag program.scope tags tag) ∧
      (∀ log : Diagnostic.Log,
        (log.reportAll reported).count = log.count + reported.length ∧
        (log.reportAll reported).retained.toList = log.retained.toList ++
          if log.limit = 0 then reported else reported.take (log.limit - log.retained.size)) ∧
      (∀ (other : Program) (otherTags : TagTable) (otherReported : List Diagnostic)
          (otherVisits : List Visit),
        other.WellFounded -> other.check = .ok (otherTags, otherReported) ->
        other.forest.VisitsStmts other.body otherVisits -> other.scope = program.scope ->
        ∀ id otherId, program.SameTest other id otherId ->
          .stmt id ∈ visits -> .stmt otherId ∈ otherVisits ->
          ∀ offence, program.Offends tags (.stmt id) offence ↔
            other.Offends otherTags (.stmt otherId) offence) := by
  obtain ⟨visits, made⟩ :=
    wellFounded.forest.exists_visitsStmts program.body wellFounded.body_lt
  have tagged : ∀ id, .expr id ∈ visits ->
      ((TagTable.blank program.forest).setAll (program.tree.marks program.scope)).get? id =
        some ((program.forest.expr id).tag program.scope) :=
    fun id visited => wellFounded.get?_of_visited made visited
  have value_tagged := fun (id : StmtId) (visited : .stmt id ∈ visits) (node : StmtNode)
      (found : program.forest.stmts[id]? = some node) (value : ExprId)
      (named : value ∈ node.form.values) => tagged value (made.value_mem visited found named)
  refine ⟨_, visits, _, wellFounded.check_eq, ?_, ?_, ?_, ?_, ?_⟩
  · intro sequence
    constructor
    · intro other
      exact other.unique made
    · rintro rfl
      exact made
  · rw [Program.tree, Forest.sequence, Stmt.breaches_ofList, List.flatMap_map]
    exact Program.reports_stmts wellFounded.forest made tagged
  · intro id node visited found
    refine ⟨_, tagged id visited, ?_⟩
    rw [wellFounded.forest.expr_eq found]
    exact ExprForm.hasTag_tree (fun child named => tagged child (made.child_mem visited found named)) _
  · intro log
    exact ⟨Diagnostic.Log.count_reportAll log _, Diagnostic.Log.retained_reportAll log _⟩
  · intro other otherTags otherReported otherVisits otherWellFounded otherChecked otherMade scope_eq
      id otherId same visited otherVisited
    rw [otherWellFounded.check_eq] at otherChecked
    obtain ⟨rfl, -⟩ := Prod.mk.inj (Except.ok.inj otherChecked)
    refine same.offends_iff scope_eq (value_tagged id visited) ?_
    intro node found value named
    exact otherWellFounded.get?_of_visited otherMade
      (otherMade.value_mem otherVisited found named)

/-- A program that tests a number and then adds one to a variable that is not declared. -/
def strayTest : Program :=
  let test := (Forest.empty.addExpr 1 (.name "i")).2
  let stray := (test.addExpr 2 (.name "y")).2
  let one := (stray.addExpr 2 (.int 1)).2
  let sum := (one.addExpr 2 (.binary .add 1 2)).2
  let stored := (sum.addExpr 2 (.assign ⟨"i", 2⟩ 3)).2
  let body := (stored.addStmt 2 (.expr 4)).2
  (Program.assemble [⟨"i", .int, 1⟩] [1] (body.addStmt 1 (.branch 0 0 none)).2).1

/-- The condition is reported before the body, and in the body the missing variable before the sum
and the sum, which is incalculable, before the assignment. -/
theorem strayTest_reports :
    strayTest.WellFounded ∧
      strayTest.forest.VisitsStmts strayTest.body
        [.expr 0, .stmt 1, .expr 1, .expr 2, .expr 3, .expr 4, .stmt 0] ∧
      ∃ tags, strayTest.check = .ok (tags,
          [TypeError.diagnostic (.condition "if" (.value .int)) 1,
            TypeError.diagnostic (.undeclared "y") 2,
            TypeError.diagnostic (.binary "+" .undeclared (.value .int)) 2,
            TypeError.diagnostic (.assignment "i" (.value .int) .incalculable) 2]) ∧
        strayTest.Reports tags [.expr 0, .stmt 1, .expr 1, .expr 2, .expr 3, .expr 4, .stmt 0]
          [TypeError.diagnostic (.condition "if" (.value .int)) 1,
            TypeError.diagnostic (.undeclared "y") 2,
            TypeError.diagnostic (.binary "+" .undeclared (.value .int)) 2,
            TypeError.diagnostic (.assignment "i" (.value .int) .incalculable) 2] := by
  have built : strayTest.Built := by
    refine .assemble _ _ _ (.addStmt 1 _ (.addStmt 2 _ (.addExpr 2 _ (.addExpr 2 _ (.addExpr 2 _
      (.addExpr 2 _ (.addExpr 1 _ .empty ?_) ?_) ?_) ?_) ?_) ?_ ?_ rfl) ?_ ?_ rfl) ?_
    all_goals decide
  have test : strayTest.forest.VisitsExprs [0] ([] ++ .expr 0 :: []) := .cons rfl .nil .nil
  have operands : strayTest.forest.VisitsExprs [1, 2]
      ([] ++ .expr 1 :: ([] ++ .expr 2 :: [])) := .cons rfl .nil (.cons rfl .nil .nil)
  have sum : strayTest.forest.VisitsExprs [3] ([.expr 1, .expr 2] ++ .expr 3 :: []) :=
    .cons rfl operands .nil
  have stored : strayTest.forest.VisitsExprs [4]
      ([.expr 1, .expr 2, .expr 3] ++ .expr 4 :: []) := .cons rfl sum .nil
  have body : strayTest.forest.VisitsStmts [0]
      ([.expr 1, .expr 2, .expr 3, .expr 4] ++ .stmt 0 :: ([] ++ [])) := .cons rfl stored .nil .nil
  have made : strayTest.forest.VisitsStmts strayTest.body
      ([.expr 0] ++ .stmt 1 :: ([.expr 1, .expr 2, .expr 3, .expr 4, .stmt 0] ++ [])) :=
    .cons rfl test body .nil
  obtain ⟨tags, visits, reported, checked, visits_iff, reports, -⟩ :=
    offences_reported_once_in_order built.wellFounded
  obtain rfl := (visits_iff _).1 made
  have reported_eq : strayTest.check.map Prod.snd = .ok _ := rfl
  rw [checked] at reported_eq
  obtain rfl := Except.ok.inj reported_eq
  exact ⟨built.wellFounded, made, tags, checked, reports⟩

end MiniLang
