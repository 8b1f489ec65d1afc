import MiniLang.Proofs.Tree.Reachability
import MiniLang.Proofs.Typing.Checking

/-!
# Checking decides the typing judgement

Where an operation is not allowed, checking puts a stand-in in place of its type and goes on.  No
stand-in hides the problem: a tree has no breaches exactly if the judgement holds of it.  Then every
node that the body reaches has one type, and the returned table gives that type.

Breaches of conditions are told apart from all others, since only they leave the types of all
expressions in place.
-/

namespace MiniLang

variable {scope : Scope}

/-- The use of a declared variable is no breach. -/
theorem Scope.useBreaches_eq_nil
    {name : String}
    {declaration : Declaration}
    (found : scope.lookup name = some declaration)
    (line : Line) :
    scope.useBreaches line name = [] := by
  simp [Scope.useBreaches, Scope.tagOf, found]

/-- An expression with a type has no breaches. -/
theorem Expr.HasType.breaches_eq_nil
    {expression : Expr}
    {type : ValueType}
    (typed : expression.HasType scope type) :
    expression.breaches scope = [] := by
  induction typed with
  | int | double | bool => rfl
  | name site found => exact Scope.useBreaches_eq_nil found site.line
  | unary site operandTyped turns inductionHypothesis =>
      simp [Expr.breaches, inductionHypothesis, operandTyped.tag_eq, Tag.unary?, Tag.type?,
        UnaryOp.result?_eq_some_iff.2 turns]
  | binary site leftTyped rightTyped combines leftHypothesis rightHypothesis =>
      simp [Expr.breaches, leftHypothesis, rightHypothesis, leftTyped.tag_eq, rightTyped.tag_eq,
        Tag.binary?, Tag.type?, BinaryOp.result?_eq_some_iff.2 combines]
  | assign site valueTyped found takes inductionHypothesis =>
      simp [Expr.breaches, inductionHypothesis, valueTyped.tag_eq,
        Scope.useBreaches_eq_nil found, Scope.tagOf, found, Tag.accepts,
        ValueType.accepts_iff.2 takes]

/-- A condition that is a truth value is no breach. -/
theorem Expr.HasType.conditionBreaches_eq_nil
    {condition : Expr}
    (typed : condition.HasType scope .bool)
    (construct : Construct)
    (line : Line) :
    construct.conditionBreaches line (condition.tag scope) = [] := by
  simp [Construct.conditionBreaches, typed.tag_eq]

/-- A well typed statement has no breaches. -/
theorem Stmt.WellTyped.breaches_eq_nil
    {statement : Stmt}
    (typed : statement.WellTyped scope) :
    statement.breaches scope = [] := by
  induction typed with
  | done | writeText | leave => rfl
  | seq firstTyped restTyped firstHypothesis restHypothesis =>
      simp [Stmt.breaches, firstHypothesis, restHypothesis]
  | block line bodyTyped inductionHypothesis => exact inductionHypothesis
  | expr line valueTyped => exact valueTyped.breaches_eq_nil
  | branch line conditionTyped yesTyped noTyped yesHypothesis noHypothesis =>
      simp [Stmt.breaches, conditionTyped.breaches_eq_nil, conditionTyped.conditionBreaches_eq_nil,
        yesHypothesis, noHypothesis]
  | loop line conditionTyped bodyTyped inductionHypothesis =>
      simp [Stmt.breaches, conditionTyped.breaches_eq_nil, conditionTyped.conditionBreaches_eq_nil,
        inductionHypothesis]
  | write line valueTyped writes =>
      simp [Stmt.breaches, valueTyped.breaches_eq_nil, valueTyped.tag_eq, Tag.type?,
        Format.canWrite_iff.2 writes]
  | read line found reads =>
      simp [Stmt.breaches, Scope.useBreaches_eq_nil found, Scope.tagOf, found, Tag.type?,
        Format.canRead_iff.2 reads]

/-- A breach that a condition is no truth value. -/
def TypeError.OnCondition (error : TypeError) : Prop :=
  ∃ (word : String) (found : Tag), error = .condition word found

/-- A breach that is noted under a test is no breach of a condition unless its error is one. -/
theorem TypeError.not_onCondition_of_test
    {error : TypeError}
    (other : ¬error.OnCondition)
    (test : Prop)
    [Decidable test]
    (line : Line) :
    ∀ breach ∈ if test then [(line, error)] else [], ¬breach.2.OnCondition := by
  intro breach present
  split at present
  · obtain rfl := List.mem_singleton.1 present
    exact other
  · exact absurd present List.not_mem_nil

/-- Where only breaches of conditions are noted, the test for any other breach fails. -/
theorem TypeError.OnCondition.not_test
    {error : TypeError}
    (other : ¬error.OnCondition)
    {test : Prop}
    [Decidable test]
    {line : Line}
    (only : ∀ breach ∈ if test then [(line, error)] else [], breach.2.OnCondition) :
    ¬test := by
  intro holds
  rw [if_pos holds] at only
  exact other (only _ (List.mem_singleton.2 rfl))

/-- No breach in an expression is that of a condition. -/
theorem Expr.not_onCondition
    {expression : Expr} :
    ∀ breach ∈ expression.breaches scope, ¬breach.2.OnCondition := by
  have use : ∀ (line : Line) (name : String), ∀ breach ∈ scope.useBreaches line name,
      ¬breach.2.OnCondition := by
    intro line name
    exact TypeError.not_onCondition_of_test (by rintro ⟨word, found, ⟨⟩⟩) _ _
  induction expression with
  | int | double | bool | dangling => simp [Expr.breaches]
  | name site spelling => exact use site.line spelling
  | unary site op operand inductionHypothesis =>
      refine List.forall_mem_append.2 ⟨inductionHypothesis (), ?_⟩
      exact TypeError.not_onCondition_of_test (by rintro ⟨word, found, ⟨⟩⟩) _ _
  | binary site op left right leftHypothesis rightHypothesis =>
      refine List.forall_mem_append.2 ⟨List.forall_mem_append.2
        ⟨leftHypothesis (), rightHypothesis ()⟩, ?_⟩
      exact TypeError.not_onCondition_of_test (by rintro ⟨word, found, ⟨⟩⟩) _ _
  | assign site target value inductionHypothesis =>
      refine List.forall_mem_append.2 ⟨List.forall_mem_append.2
        ⟨inductionHypothesis (), use target.line target.name⟩, ?_⟩
      exact TypeError.not_onCondition_of_test (by rintro ⟨word, found, ⟨⟩⟩) _ _

/-- An expression with no breaches but those of conditions has a type. -/
theorem Expr.exists_hasType_of_onCondition
    {forest : Forest}
    {expression : Expr}
    (grounded : expression.Grounded forest)
    (only : ∀ breach ∈ expression.breaches scope, breach.2.OnCondition) :
    ∃ type, expression.HasType scope type := by
  refine Expr.exists_hasType_of_breaches_eq_nil grounded ?_
  refine List.eq_nil_iff_forall_not_mem.2 fun breach present => ?_
  exact Expr.not_onCondition breach present (only breach present)

/-- A sequence is well typed exactly if each of its statements is. -/
theorem Stmt.wellTyped_ofList_iff
    {statements : List Stmt} :
    (Stmt.ofList statements).WellTyped scope ↔
      ∀ statement ∈ statements, statement.WellTyped scope := by
  induction statements with
  | nil => simp [Stmt.ofList, Stmt.WellTyped.done]
  | cons first rest inductionHypothesis =>
      rw [List.forall_mem_cons, ← inductionHypothesis]
      constructor
      · rintro (_ | ⟨firstTyped, restTyped⟩)
        exact ⟨firstTyped, restTyped⟩
      · rintro ⟨firstTyped, restTyped⟩
        exact .seq firstTyped restTyped

/-- The tags of a sequence are those of its statements. -/
theorem Stmt.marks_ofList
    (statements : List Stmt) :
    (Stmt.ofList statements).marks scope = statements.flatMap (Stmt.marks scope) := by
  induction statements with
  | nil => rfl
  | cons first rest inductionHypothesis =>
      rw [List.flatMap_cons, ← inductionHypothesis]
      rfl

/-- A table that holds the tags of a sequence holds those of each of its statements. -/
theorem TagTable.Holds.of_sequence
    {table : TagTable}
    {statements : List Stmt}
    (holds : table.Holds ((Stmt.ofList statements).marks scope))
    {statement : Stmt}
    (present : statement ∈ statements) :
    table.Holds (statement.marks scope) := by
  intro mark mark_mem
  refine holds mark ?_
  rw [Stmt.marks_ofList]
  exact List.mem_flatMap.2 ⟨statement, present, mark_mem⟩

namespace Program

variable {program : Program} {tags : TagTable}

/-- If the body is well typed, then so is every statement that it reaches. -/
theorem ReachesStmt.typed
    (wellFounded : program.forest.WellFounded)
    (typed : program.tree.WellTyped program.scope)
    (holds : tags.Holds (program.tree.marks program.scope))
    {id : StmtId}
    (reached : program.ReachesStmt id) :
    (program.forest.stmt id).WellTyped program.scope ∧
      tags.Holds ((program.forest.stmt id).marks program.scope) := by
  induction reached with
  | body named =>
      have present := List.mem_map_of_mem (f := program.forest.stmt) named
      exact ⟨Stmt.wellTyped_ofList_iff.1 typed _ present, holds.of_sequence present⟩
  | @child id child node reached found named inductionHypothesis =>
      obtain ⟨line, form⟩ := node
      rw [wellFounded.stmt_eq found] at inductionHypothesis
      obtain ⟨parentTyped, parentHolds⟩ := inductionHypothesis
      cases form with
      | block body =>
          have present := List.mem_map_of_mem (f := program.forest.stmt) named
          cases parentTyped with
          | block _ bodyTyped =>
              exact ⟨Stmt.wellTyped_ofList_iff.1 bodyTyped _ present,
                TagTable.Holds.of_sequence parentHolds present⟩
      | branch condition yes no? =>
          obtain ⟨above_hold, no_holds⟩ := TagTable.holds_append.1 parentHolds
          cases parentTyped with
          | branch _ conditionTyped yesTyped noTyped =>
              obtain rfl | is_no := List.mem_cons.1 named
              · exact ⟨yesTyped, (TagTable.holds_append.1 above_hold).2⟩
              · obtain rfl := Option.mem_toList.1 is_no
                exact ⟨noTyped, no_holds⟩
      | loop condition body =>
          obtain rfl := List.mem_singleton.1 named
          cases parentTyped with
          | loop _ conditionTyped bodyTyped =>
              exact ⟨bodyTyped, (TagTable.holds_append.1 parentHolds).2⟩
      | _ => exact absurd named List.not_mem_nil

/-- The expressions of a well typed statement have types. -/
theorem ReachesStmt.value_typed
    (wellFounded : program.forest.WellFounded)
    {id : StmtId}
    {node : StmtNode}
    (found : program.forest.stmts[id]? = some node)
    (typed : (program.forest.stmt id).WellTyped program.scope)
    (holds : tags.Holds ((program.forest.stmt id).marks program.scope))
    {value : ExprId}
    (named : value ∈ node.form.values) :
    (∃ type, (program.forest.expr value).HasType program.scope type) ∧
      tags.Holds ((program.forest.expr value).marks program.scope) := by
  obtain ⟨line, form⟩ := node
  rw [wellFounded.stmt_eq found] at typed holds
  cases form with
  | expr other =>
      obtain rfl := List.mem_singleton.1 named
      cases typed with
      | expr _ valueTyped => exact ⟨⟨_, valueTyped⟩, holds⟩
  | branch condition yes no? =>
      obtain rfl := List.mem_singleton.1 named
      cases typed with
      | branch _ conditionTyped yesTyped noTyped =>
          have above_hold := (TagTable.holds_append.1 holds).1
          exact ⟨⟨_, conditionTyped⟩, (TagTable.holds_append.1 above_hold).1⟩
  | loop condition body =>
      obtain rfl := List.mem_singleton.1 named
      cases typed with
      | loop _ conditionTyped bodyTyped =>
          exact ⟨⟨_, conditionTyped⟩, (TagTable.holds_append.1 holds).1⟩
  | write other format =>
      obtain rfl := List.mem_singleton.1 named
      cases typed with
      | write _ valueTyped writes => exact ⟨⟨_, valueTyped⟩, holds⟩
  | _ => exact absurd named List.not_mem_nil

/-- If the body is well typed, then every expression that it reaches has a type. -/
theorem ReachesExpr.typed
    (wellFounded : program.forest.WellFounded)
    (typed : program.tree.WellTyped program.scope)
    (holds : tags.Holds (program.tree.marks program.scope))
    {id : ExprId}
    (reached : program.ReachesExpr id) :
    (∃ type, (program.forest.expr id).HasType program.scope type) ∧
      tags.Holds ((program.forest.expr id).marks program.scope) := by
  induction reached with
  | value statement_reached found named =>
      obtain ⟨statementTyped, statementHolds⟩ := statement_reached.typed wellFounded typed holds
      exact ReachesStmt.value_typed wellFounded found statementTyped statementHolds named
  | @child id child node reached found named inductionHypothesis =>
      obtain ⟨line, form⟩ := node
      rw [wellFounded.expr_eq found] at inductionHypothesis
      obtain ⟨⟨type, parentTyped⟩, parentHolds⟩ := inductionHypothesis
      cases form with
      | unary op operand =>
          obtain rfl := List.mem_singleton.1 named
          cases parentTyped with
          | unary _ operandTyped turns =>
              exact ⟨⟨_, operandTyped⟩, (TagTable.holds_append.1 parentHolds).1⟩
      | binary op left right =>
          have operands_hold := (TagTable.holds_append.1 parentHolds).1
          obtain ⟨left_holds, right_holds⟩ := TagTable.holds_append.1 operands_hold
          cases parentTyped with
          | binary _ leftTyped rightTyped combines =>
              obtain rfl | is_right := List.mem_cons.1 named
              · exact ⟨⟨_, leftTyped⟩, left_holds⟩
              · obtain rfl := List.mem_singleton.1 is_right
                exact ⟨⟨_, rightTyped⟩, right_holds⟩
      | assign target value =>
          obtain rfl := List.mem_singleton.1 named
          cases parentTyped with
          | assign _ valueTyped declared takes =>
              exact ⟨⟨_, valueTyped⟩, (TagTable.holds_append.1 parentHolds).1⟩
      | _ => exact absurd named List.not_mem_nil

/-- Every expression that the body reaches is a node of the forest. -/
theorem ReachesExpr.known
    (wellFounded : program.forest.WellFounded)
    {id : ExprId}
    (reached : program.ReachesExpr id) :
    id < program.forest.exprs.size := by
  induction reached with
  | value statement_reached found named => exact wellFounded.value_lt _ _ found _ named
  | child reached found named inductionHypothesis =>
      exact Nat.lt_trans (wellFounded.expr_lt _ _ found _ named) inductionHypothesis

end Program

/-- A table that holds the tags of the tree of an expression holds that of the expression. -/
theorem TagTable.Holds.own
    {table : TagTable}
    {forest : Forest}
    (wellFounded : forest.WellFounded)
    {id : ExprId}
    (known : id < forest.exprs.size)
    (holds : table.Holds ((forest.expr id).marks scope)) :
    table.get? id = some ((forest.expr id).tag scope) := by
  have found : forest.exprs[id]? = some forest.exprs[id] := Array.getElem?_eq_getElem known
  generalize forest.exprs[id] = node at found
  obtain ⟨line, form⟩ := node
  have tree_eq := wellFounded.expr_eq found
  have present : (id, (forest.expr id).tag scope) ∈ (forest.expr id).marks scope := by
    rw [tree_eq]
    cases form <;> simp [ExprForm.tree, Expr.marks]
  exact holds _ present

/-- An expression has at most one type. -/
theorem Expr.HasType.unique
    {expression : Expr}
    {first second : ValueType}
    (firstTyped : expression.HasType scope first)
    (secondTyped : expression.HasType scope second) :
    first = second := by
  have tag_eq := firstTyped.tag_eq
  rw [secondTyped.tag_eq, Tag.value.injEq] at tag_eq
  exact tag_eq.symm

/-- Checking a well-founded program always comes to an end, and reports nothing exactly if every
statement of the body is well typed.  In that case every expression that the body reaches has one
type, and the returned table gives it that type. -/
theorem checking_decides_typing
    {program : Program}
    (wellFounded : program.WellFounded) :
    ∃ tags diagnostics, program.check = .ok (tags, diagnostics) ∧
      (diagnostics = [] ↔
        ∀ id ∈ program.body, (program.forest.stmt id).WellTyped program.scope) ∧
      (diagnostics = [] -> ∀ id, program.ReachesExpr id ->
        ∃ type, tags.get? id = some (.value type) ∧
          ∀ other, (program.forest.expr id).HasType program.scope other ↔ other = type) := by
  have body_iff : program.tree.WellTyped program.scope ↔
      ∀ id ∈ program.body, (program.forest.stmt id).WellTyped program.scope := by
    rw [Program.tree, Forest.sequence, Stmt.wellTyped_ofList_iff, List.forall_mem_map]
  have clean_iff : program.tree.breaches program.scope = [] ↔
      program.tree.WellTyped program.scope :=
    ⟨Stmt.wellTyped_of_breaches_eq_nil wellFounded.grounded_tree, Stmt.WellTyped.breaches_eq_nil⟩
  refine ⟨_, _, wellFounded.check_eq, ?_, ?_⟩
  · rw [List.map_eq_nil_iff, clean_iff, body_iff]
  · intro clean id reached
    rw [List.map_eq_nil_iff, clean_iff] at clean
    obtain ⟨⟨type, typed⟩, holds⟩ :=
      reached.typed wellFounded.forest clean wellFounded.holds_marks
    refine ⟨type, ?_, fun other => ⟨fun otherTyped => otherTyped.unique typed, ?_⟩⟩
    · rw [holds.own wellFounded.forest (reached.known wellFounded.forest), typed.tag_eq]
    · rintro rfl
      exact typed

/-- A program that assigns the sum of an integer and a real to a variable. -/
def mixedSum : Program :=
  let one := (Forest.empty.addExpr 1 (.int 1)).2
  let both := (one.addExpr 1 (.double 0x4004000000000000)).2
  let sum := (both.addExpr 1 (.binary .add 0 1)).2
  let stored := (sum.addExpr 2 (.assign ⟨"d", 1⟩ 2)).2
  (Program.assemble [⟨"d", .double, 1⟩] [0] (stored.addStmt 1 (.expr 3)).2).1

/-- Checking reports nothing about the sum, its statement is well typed, and the table gives the sum
the type of reals. -/
theorem mixedSum_typed :
    mixedSum.WellFounded ∧ ∃ tags, mixedSum.check = .ok (tags, []) ∧
      (∀ id ∈ mixedSum.body, (mixedSum.forest.stmt id).WellTyped mixedSum.scope) ∧
      tags.get? 2 = some (.value .double) ∧
      (mixedSum.forest.expr 2).HasType mixedSum.scope .double := by
  have built : mixedSum.Built := by
    refine .assemble _ _ _ (.addStmt 1 _ (.addExpr 2 _ (.addExpr 1 _ (.addExpr 1 _ (.addExpr 1 _
      .empty ?_) ?_) ?_) ?_) ?_ ?_ rfl) ?_
    all_goals decide
  obtain ⟨tags, diagnostics, checked, typed_iff, given⟩ :=
    checking_decides_typing built.wellFounded
  have none_reported : mixedSum.check.map Prod.snd = .ok [] := by rfl
  rw [checked] at none_reported
  obtain rfl : diagnostics = [] := Except.ok.inj none_reported
  have statement_reached : mixedSum.ReachesStmt 0 := .body (List.mem_singleton.2 rfl)
  have stored_reached : mixedSum.ReachesExpr 3 :=
    .value statement_reached rfl (List.mem_singleton.2 rfl)
  have sum_reached : mixedSum.ReachesExpr 2 :=
    .child stored_reached rfl (List.mem_singleton.2 rfl)
  obtain ⟨type, tagged, typed⟩ := given rfl 2 sum_reached
  have sum_tagged : mixedSum.check.map (fun result => result.1.get? 2) =
      .ok (some (.value .double)) := by rfl
  rw [checked] at sum_tagged
  have type_eq : some (Tag.value type) = some (.value .double) :=
    tagged.symm.trans (Except.ok.inj sum_tagged)
  cases type_eq
  exact ⟨built.wellFounded, tags, checked, typed_iff.1 rfl, tagged, (typed _).2 rfl⟩

end MiniLang
