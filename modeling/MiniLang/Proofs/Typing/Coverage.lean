import MiniLang.Proofs.Code.Agreement
import MiniLang.Proofs.Reading.Ownership
import MiniLang.Proofs.Typing.Findings

/-!
# Which expressions are tagged

Checking visits the nodes that the body reaches, and no others, and tags each expression that it
visits.  So an expression has a tag exactly if the body reaches it, and the nodes that a broken
construct leaves behind have none.  A stand-in is given only to an expression that breaks a rule
itself, and every visit to such an expression is reported.
-/

namespace MiniLang

/-- The expression that is visited. -/
def Visit.expr? : Visit -> Option ExprId
  | .expr id => some id
  | .stmt _ => none

theorem Visit.mem_filterMap_expr?
    {visits : List Visit}
    {id : ExprId} :
    id ∈ visits.filterMap Visit.expr? ↔ .expr id ∈ visits := by
  rw [List.mem_filterMap]
  constructor
  · rintro ⟨visit, made, expr_eq⟩
    cases visit with
    | expr other =>
        obtain rfl := Option.some.inj expr_eq
        exact made
    | stmt other => cases expr_eq
  · intro made
    exact ⟨_, made, rfl⟩

theorem TagTable.get?_blank
    (forest : Forest)
    (id : ExprId) :
    (blank forest).get? id = none := by
  unfold blank get?
  rw [Array.getElem?_replicate]
  split <;> rfl

/-- The tokens of a source text end with the end of file. -/
theorem Token.terminated_scan (source : String) :
    Reading.Terminated (Token.scan source).tokens := by
  unfold Token.scan
  exact .inr ⟨_, List.mem_append_right _ List.mem_cons_self, rfl⟩

namespace Forest

variable {forest : Forest}

/-- With a statement the statements that it names are visited. -/
theorem VisitsStmts.stmtChild_mem
    {ids : List StmtId}
    {visits : List Visit}
    (made : forest.VisitsStmts ids visits)
    {id : StmtId}
    {node : StmtNode}
    (visited : .stmt id ∈ visits)
    (found : forest.stmts[id]? = some node)
    {child : StmtId}
    (named : child ∈ node.form.children) :
    .stmt child ∈ visits := by
  induction made with
  | nil => exact absurd visited List.not_mem_nil
  | cons ownFound values parts others partsHypothesis othersHypothesis =>
      simp only [List.mem_append, List.mem_cons, Visit.stmt.injEq] at visited ⊢
      rcases visited with before | same | inside | later
      · exact absurd before (values.not_stmt id)
      · subst same
        obtain rfl := Option.some.inj (found.symm.trans ownFound)
        exact .inr (.inr (.inl (parts.mem named)))
      · exact .inr (.inr (.inl (partsHypothesis inside)))
      · exact .inr (.inr (.inr (othersHypothesis later)))

/-- Expressions are tagged in the order in which they are visited. -/
theorem VisitsExprs.tagged_eq
    (scope : Scope)
    (wellFounded : forest.WellFounded)
    {ids : List ExprId}
    {visits : List Visit}
    (made : forest.VisitsExprs ids visits) :
    (ids.flatMap fun id => (forest.expr id).marks scope).map Prod.fst =
      visits.filterMap Visit.expr? := by
  induction made with
  | nil => rfl
  | cons found parts others partsHypothesis othersHypothesis =>
      rw [List.flatMap_cons, wellFounded.expr_eq found, ExprForm.marks_tree]
      simp [partsHypothesis, othersHypothesis, Visit.expr?]

/-- Expressions are tagged in the order in which they are visited. -/
theorem VisitsStmts.tagged_eq
    (scope : Scope)
    (wellFounded : forest.WellFounded)
    {ids : List StmtId}
    {visits : List Visit}
    (made : forest.VisitsStmts ids visits) :
    (ids.flatMap fun id => (forest.stmt id).marks scope).map Prod.fst =
      visits.filterMap Visit.expr? := by
  induction made with
  | nil => rfl
  | cons found values parts others partsHypothesis othersHypothesis =>
      rw [List.flatMap_cons, wellFounded.stmt_eq found, StmtForm.marks_tree, List.filterMap_append,
        List.filterMap_cons_none (by rfl), List.filterMap_append]
      simp [values.tagged_eq scope wellFounded, partsHypothesis, othersHypothesis]

end Forest

namespace Program

variable {program : Program}

/-- Visiting reached expressions leads to reached expressions only. -/
theorem reaches_of_visitsExprs
    {ids : List ExprId}
    {visits : List Visit}
    (made : program.forest.VisitsExprs ids visits)
    (reached : ∀ id ∈ ids, program.ReachesExpr id)
    {id : ExprId}
    (visited : .expr id ∈ visits) :
    program.ReachesExpr id := by
  induction made with
  | nil => exact absurd visited List.not_mem_nil
  | cons found parts others partsHypothesis othersHypothesis =>
      have own := reached _ List.mem_cons_self
      simp only [List.mem_append, List.mem_cons, Visit.expr.injEq] at visited
      rcases visited with inside | rfl | later
      · exact partsHypothesis (fun child named => .child own found named) inside
      · exact own
      · refine othersHypothesis (fun other given => ?_) later
        exact reached other (List.mem_cons_of_mem _ given)

/-- Visiting reached statements leads to reached expressions only. -/
theorem reaches_of_visitsStmts
    {ids : List StmtId}
    {visits : List Visit}
    (made : program.forest.VisitsStmts ids visits)
    (reached : ∀ id ∈ ids, program.ReachesStmt id)
    {id : ExprId}
    (visited : .expr id ∈ visits) :
    program.ReachesExpr id := by
  induction made with
  | nil => exact absurd visited List.not_mem_nil
  | cons found values parts others partsHypothesis othersHypothesis =>
      have own := reached _ List.mem_cons_self
      simp only [List.mem_append, List.mem_cons, reduceCtorEq, false_or] at visited
      rcases visited with before | inside | later
      · exact reaches_of_visitsExprs values (fun value named => .value own found named) before
      · exact partsHypothesis (fun child named => .child own found named) inside
      · refine othersHypothesis (fun other given => ?_) later
        exact reached other (List.mem_cons_of_mem _ given)

section Visits

variable {visits : List Visit} (made : program.forest.VisitsStmts program.body visits)

include made

theorem stmt_mem_of_reaches
    {id : StmtId}
    (reached : program.ReachesStmt id) :
    .stmt id ∈ visits := by
  induction reached with
  | body named => exact made.mem named
  | child _ found named inductionHypothesis =>
      exact made.stmtChild_mem inductionHypothesis found named

/-- The body reaches an expression exactly if checking visits it. -/
theorem reachesExpr_iff
    {id : ExprId} :
    program.ReachesExpr id ↔ .expr id ∈ visits := by
  constructor
  · intro reached
    induction reached with
    | value reached found named =>
        exact made.value_mem (stmt_mem_of_reaches made reached) found named
    | child _ found named inductionHypothesis =>
        exact made.child_mem inductionHypothesis found named
  · intro visited
    exact reaches_of_visitsStmts made (fun id named => .body named) visited

/-- The table that checking returns has a tag for the visited expressions only. -/
theorem WellFounded.get?_eq
    (wellFounded : program.WellFounded)
    (id : ExprId) :
    ((TagTable.blank program.forest).setAll (program.tree.marks program.scope)).get? id =
      if .expr id ∈ visits then some ((program.forest.expr id).tag program.scope) else none := by
  have marked_eq : (program.tree.marks program.scope).map Prod.fst =
      visits.filterMap Visit.expr? := by
    rw [← made.tagged_eq program.scope wellFounded.forest, Program.tree, Forest.sequence,
      Stmt.marks_ofList, List.flatMap_map]
  rw [TagTable.get?_setAll (fun id => (program.forest.expr id).tag program.scope), marked_eq]
  · simp only [Visit.mem_filterMap_expr?, TagTable.get?_blank]
  · intro mark present
    simpa [TagTable.blank] using wellFounded.grounded_tree.mark_eq mark present

/-- Checking tags exactly the expressions that the body reaches. -/
theorem WellFounded.tagged_iff
    (wellFounded : program.WellFounded)
    (id : ExprId) :
    (∃ tag, ((TagTable.blank program.forest).setAll (program.tree.marks program.scope)).get? id =
        some tag) ↔
      program.ReachesExpr id := by
  rw [wellFounded.get?_eq made, reachesExpr_iff made]
  split <;> simp_all

end Visits

end Program

/-- An expression whose tag stands in for a missing type breaks a rule itself. -/
theorem ExprForm.HasTag.exists_offence
    {scope : Scope}
    {tags : TagTable}
    {form : ExprForm}
    {tag : Tag}
    (hasTag : form.HasTag scope tags tag)
    (standsIn : tag.isStandIn = true)
    (line : Line) :
    ∃ offence, form.Offends scope tags line offence := by
  cases hasTag with
  | undeclared missing => exact ⟨_, .name missing⟩
  | unaryStandIn tagged illegal => exact ⟨_, .unary tagged illegal⟩
  | binaryStandIn leftTagged rightTagged illegal =>
      exact ⟨_, .binary leftTagged rightTagged illegal⟩
  | assignUndeclared missing => exact ⟨_, .target missing⟩
  | _ => cases standsIn

/-- What is reported about a visit stands behind what is reported about the visits before it. -/
theorem Program.Reports.exists_report
    {program : Program}
    {tags : TagTable}
    {before after : List Visit}
    {visit : Visit}
    {reported : List Diagnostic}
    {line : Line}
    {error : TypeError}
    (reports : program.Reports tags (before ++ visit :: after) reported)
    (offends : program.Offends tags visit (line, error)) :
    ∃ earlier later, program.Reports tags before earlier ∧
      reported = earlier ++ error.diagnostic line :: later := by
  induction before generalizing reported with
  | nil =>
      cases reports with
      | offending _ only rest =>
          obtain ⟨rfl, rfl⟩ := Prod.mk.inj (only _ offends)
          exact ⟨[], _, .nil, rfl⟩
      | fine keeps _ => exact absurd offends (keeps _)
  | cons first others inductionHypothesis =>
      cases reports with
      | offending offends' only rest =>
          obtain ⟨earlier, later, earlier_reports, rfl⟩ := inductionHypothesis rest
          exact ⟨_, later, .offending offends' only earlier_reports, rfl⟩
      | fine keeps rest =>
          obtain ⟨earlier, later, earlier_reports, rfl⟩ := inductionHypothesis rest
          exact ⟨earlier, later, .fine keeps earlier_reports, rfl⟩

/-- Checking tags exactly the expressions that the body reaches, whatever rules they break.  If the
tag of an expression stands in for a missing type, the expression itself breaks a rule, and each
visit to it is reported, behind the reports about the visits before.  So after a source text without
breaches of the grammar every expression of the forest has a tag. -/
theorem tags_exactly_reached :
    (∀ program : Program, program.WellFounded ->
      ∃ tags visits reported,
        program.check = .ok (tags, reported) ∧
        program.forest.VisitsStmts program.body visits ∧
        program.Reports tags visits reported ∧
        (∀ id, (∃ tag, tags.get? id = some tag) ↔ program.ReachesExpr id) ∧
        ∀ id tag, tags.get? id = some tag -> tag.isStandIn = true ->
          .expr id ∈ visits ∧
          ∃ line error, program.Offends tags (.expr id) (line, error) ∧
            ∀ before after, visits = before ++ .expr id :: after ->
              ∃ earlier later, program.Reports tags before earlier ∧
                reported = earlier ++ error.diagnostic line :: later) ∧
    ∀ source : String, ∃ analysis, analyse source = .ok analysis ∧
      ((∀ diagnostic ∈ analysis.diagnostics, diagnostic.kind ≠ .syntactic) ->
        ∀ id < analysis.program.forest.exprs.size, ∃ tag, analysis.tags.get? id = some tag) := by
  constructor
  · intro program wellFounded
    obtain ⟨visits, made⟩ :=
      wellFounded.forest.exists_visitsStmts program.body wellFounded.body_lt
    have checked := wellFounded.check_eq
    have tag_eq := wellFounded.get?_eq made
    have tagged_iff := wellFounded.tagged_iff made
    generalize (TagTable.blank program.forest).setAll (program.tree.marks program.scope) = tags
      at checked tag_eq tagged_iff
    have tagged : ∀ id, .expr id ∈ visits ->
        tags.get? id = some ((program.forest.expr id).tag program.scope) :=
      fun id visited => (tag_eq id).trans (if_pos visited)
    have reports := wellFounded.reports_of_check made checked
    refine ⟨tags, visits, _, checked, made, reports, tagged_iff, ?_⟩
    intro id tag found standsIn
    have reached := (tagged_iff id).1 ⟨tag, found⟩
    have visited := (Program.reachesExpr_iff made).1 reached
    obtain ⟨node, node_eq⟩ : ∃ node, program.forest.exprs[id]? = some node :=
      ⟨_, Array.getElem?_eq_getElem (reached.known wellFounded.forest)⟩
    have hasTag : node.form.HasTag program.scope tags tag := by
      obtain rfl := Option.some.inj ((tagged id visited).symm.trans found)
      rw [wellFounded.forest.expr_eq node_eq]
      exact ExprForm.hasTag_tree
        (fun child named => tagged child (made.child_mem visited node_eq named)) _
    obtain ⟨⟨line, error⟩, offends⟩ := hasTag.exists_offence standsIn node.line
    refine ⟨visited, line, error, .expr node_eq offends, ?_⟩
    rintro before after rfl
    exact reports.exists_report (.expr node_eq offends)
  · intro source
    have wellFounded := Program.wellFounded_ofTokens (Token.scan source).tokens
    obtain ⟨visits, made⟩ := wellFounded.forest.exists_visitsStmts _ wellFounded.body_lt
    refine ⟨_, analyse_of_check wellFounded.check_eq, fun none_syntactic id present => ?_⟩
    refine (wellFounded.tagged_iff made id).2 ?_
    refine (Program.reaches_of_no_syntactic (Token.terminated_scan source) ?_).2 id present
    intro diagnostic complained
    exact none_syntactic diagnostic
      (List.mem_append_left _ (List.mem_append_right _ complained))

/-- A program that stores the sum of a missing variable and one, and that has a node left over from
a construct that was given up. -/
def leftover : Program :=
  let given := (Forest.empty.addExpr 1 (.int 7)).2
  let stray := (given.addExpr 2 (.name "y")).2
  let one := (stray.addExpr 2 (.int 1)).2
  let sum := (one.addExpr 2 (.binary .add 1 2)).2
  let stored := (sum.addExpr 2 (.assign ⟨"i", 2⟩ 3)).2
  (Program.assemble [⟨"i", .int, 1⟩] [0] (stored.addStmt 2 (.expr 4)).2).1

/-- The node that is left over has no tag.  The sum is incalculable and is reported behind the
missing variable.  A source text that breaks only typing rules gets a tag for each expression. -/
theorem leftover_tagged :
    leftover.WellFounded ∧
      (∃ tags reported,
        leftover.check = .ok (tags, reported) ∧
        tags.get? 0 = none ∧
        tags.get? 3 = some .incalculable ∧
        leftover.ReachesExpr 3 ∧
        ∃ earlier later, reported = earlier ++
          TypeError.diagnostic (.binary "+" .undeclared (.value .int)) 2 :: later) ∧
      ∃ analysis, analyse "program\x7by+1;\x7d" = .ok analysis ∧
        analysis.program.forest.exprs.size = 3 ∧
        ∃ tag, analysis.tags.get? 2 = some tag := by
  have built : leftover.Built := by
    refine .assemble _ _ _ (.addStmt 2 _ (.addExpr 2 _ (.addExpr 2 _ (.addExpr 2 _
      (.addExpr 2 _ (.addExpr 1 _ .empty ?_) ?_) ?_) ?_) ?_) ?_ ?_ rfl) ?_
    all_goals decide
  obtain ⟨tags, visits, reported, checked, -, -, tagged_iff, standIns⟩ :=
    tags_exactly_reached.1 leftover built.wellFounded
  obtain ⟨analysis, analysed, covered⟩ := tags_exactly_reached.2 "program\x7by+1;\x7d"
  have tags_eq : leftover.check.map (fun result => [0, 1, 2, 3].map result.1.get?) =
      .ok [none, some .undeclared, some (.value .int), some .incalculable] := rfl
  rw [checked] at tags_eq
  obtain ⟨untagged, stray, one, tagged⟩ :
      tags.get? 0 = none ∧ tags.get? 1 = some .undeclared ∧ tags.get? 2 = some (.value .int) ∧
        tags.get? 3 = some .incalculable := by
    simpa using Except.ok.inj tags_eq
  have facts : (analyse "program\x7by+1;\x7d").toOption.map (fun analysis =>
      (analysis.program.forest.exprs.size, analysis.diagnostics.map Diagnostic.kind)) =
        some (3, [.semantic, .semantic]) := by
    decide +kernel
  rw [analysed] at facts
  obtain ⟨size_eq, kinds_eq⟩ := Prod.mk.inj (Option.some.inj facts)
  refine ⟨built.wellFounded, ⟨tags, reported, checked, untagged, tagged, ?_, ?_⟩, analysis,
    analysed, size_eq, ?_⟩
  · exact (tagged_iff 3).1 ⟨_, tagged⟩
  · obtain ⟨visited, line, error, offends, reports⟩ := standIns 3 _ tagged rfl
    obtain ⟨before, after, visits_eq⟩ := List.append_of_mem visited
    obtain ⟨earlier, later, -, reported_eq⟩ := reports before after visits_eq
    obtain ⟨rfl, rfl⟩ : line = 2 ∧ error = .binary "+" .undeclared (.value .int) := by
      cases offends with
      | expr found offends =>
          obtain rfl := Option.some.inj found
          cases offends with
          | binary leftTagged rightTagged _ =>
              obtain rfl := Option.some.inj (leftTagged.symm.trans stray)
              obtain rfl := Option.some.inj (rightTagged.symm.trans one)
              exact ⟨rfl, rfl⟩
    exact ⟨earlier, later, reported_eq⟩
  · refine covered ?_ 2 (by rw [size_eq]; decide)
    intro diagnostic reported syntactic
    have listed := List.mem_map_of_mem (f := Diagnostic.kind) reported
    rw [kinds_eq, syntactic] at listed
    simp at listed

end MiniLang
