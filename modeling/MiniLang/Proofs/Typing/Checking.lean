import MiniLang.Proofs.Tree.WellFounded
import MiniLang.Proofs.Typing.Judgement
import MiniLang.Typing.Check

/-!
# What checking finds

Checking is described without its state: the tag of an expression, the tags that it sets and the
breaches that it notes are functions of the tree and the scope.  Running the checker on a grounded
tree gives exactly these.

A tree without breaches is well typed, and the tag of each of its expressions is the type that the
rules give it.  Since the tag of a node does not depend on where the node is reached from, the table
that checking returns holds it even where nodes are shared.
-/

namespace MiniLang

/-- The breach that the use of a variable makes, if it is not declared. -/
def Scope.useBreaches (scope : Scope) (line : Line) (name : String) : List (Line × TypeError) :=
  if scope.tagOf name = .undeclared then [(line, .undeclared name)] else []

namespace Expr

/-- The tag that checking gives an expression. -/
def tag (scope : Scope) : Expr -> Tag
  | .int _ _ => .value .int
  | .double _ _ => .value .double
  | .bool _ _ => .value .bool
  | .name _ spelling => scope.tagOf spelling
  | .unary _ op operand =>
      (Tag.unary? op ((operand ()).tag scope)).getD (Tag.unaryStandIn op)
  | .binary _ op left right =>
      (Tag.binary? op ((left ()).tag scope) ((right ()).tag scope)).getD (Tag.binaryStandIn op)
  | .assign _ target _ => scope.tagOf target.name
  | .dangling _ => .incalculable

/-- The tags that checking an expression sets, in order. -/
def marks (scope : Scope) : Expr -> List (Nat × Tag)
  | .int site value => [(site.id, tag scope (.int site value))]
  | .double site bits => [(site.id, tag scope (.double site bits))]
  | .bool site value => [(site.id, tag scope (.bool site value))]
  | .name site spelling => [(site.id, tag scope (.name site spelling))]
  | .unary site op operand =>
      (operand ()).marks scope ++ [(site.id, tag scope (.unary site op operand))]
  | .binary site op left right =>
      (left ()).marks scope ++ (right ()).marks scope ++
        [(site.id, tag scope (.binary site op left right))]
  | .assign site target value =>
      (value ()).marks scope ++ [(site.id, tag scope (.assign site target value))]
  | .dangling _ => []

/-- The breaches in an expression, in the order of their discovery. -/
def breaches (scope : Scope) : Expr -> List (Line × TypeError)
  | .int _ _ | .double _ _ | .bool _ _ | .dangling _ => []
  | .name site spelling => scope.useBreaches site.line spelling
  | .unary site op operand =>
      (operand ()).breaches scope ++
        (if Tag.unary? op ((operand ()).tag scope) = none
          then [(site.line, .unary op.sign ((operand ()).tag scope))] else [])
  | .binary site op left right =>
      (left ()).breaches scope ++ (right ()).breaches scope ++
        (if Tag.binary? op ((left ()).tag scope) ((right ()).tag scope) = none
          then [(site.line, .binary op.sign ((left ()).tag scope) ((right ()).tag scope))] else [])
  | .assign site target value =>
      (value ()).breaches scope ++ scope.useBreaches target.line target.name ++
        (if scope.tagOf target.name ≠ .undeclared ∧
            (scope.tagOf target.name).accepts ((value ()).tag scope) = false
          then [(site.line,
            .assignment target.name (scope.tagOf target.name) ((value ()).tag scope))] else [])

end Expr

/-- The breach of a condition that is no truth value. -/
def Construct.conditionBreaches (construct : Construct) (line : Line) (tag : Tag) :
    List (Line × TypeError) :=
  if tag ≠ .value .bool then [(line, .condition construct.keyword.spelling tag)] else []

namespace Stmt

/-- The tags that checking a statement sets, in order. -/
def marks (scope : Scope) : Stmt -> List (Nat × Tag)
  | .done | .writeText _ _ | .read _ _ _ | .leave _ | .dangling _ => []
  | .seq first rest => first.marks scope ++ rest.marks scope
  | .block _ body => (body ()).marks scope
  | .expr _ value => value.marks scope
  | .branch _ condition yes no =>
      condition.marks scope ++ (yes ()).marks scope ++ (no ()).marks scope
  | .loop _ condition body => condition.marks scope ++ (body ()).marks scope
  | .write _ value _ => value.marks scope

/-- The breaches in a statement, in the order of their discovery. -/
def breaches (scope : Scope) : Stmt -> List (Line × TypeError)
  | .done | .writeText _ _ | .leave _ | .dangling _ => []
  | .seq first rest => first.breaches scope ++ rest.breaches scope
  | .block _ body => (body ()).breaches scope
  | .expr _ value => value.breaches scope
  | .branch line condition yes no =>
      condition.breaches scope ++
        Construct.branch.conditionBreaches line (condition.tag scope) ++
        (yes ()).breaches scope ++ (no ()).breaches scope
  | .loop line condition body =>
      condition.breaches scope ++
        Construct.loop.conditionBreaches line (condition.tag scope) ++ (body ()).breaches scope
  | .write line value format =>
      value.breaches scope ++
        (if (value.tag scope).type?.any format.canWrite = false
          then [(line, Checking.writeError format (value.tag scope))] else [])
  | .read _ target format =>
      scope.useBreaches target.line target.name ++
        (if scope.tagOf target.name ≠ .undeclared ∧
            (scope.tagOf target.name).type?.any format.canRead = false
          then [(target.line,
            Checking.readError format target.name (scope.tagOf target.name))] else [])

end Stmt

/-- Set tags one after the other. -/
def TagTable.setAll (table : TagTable) (marks : List (Nat × Tag)) : TagTable :=
  marks.foldl (fun reached mark => reached.set mark.1 mark.2) table

namespace Checking

variable {scope : Scope}

/-- The state after setting tags and noting breaches. -/
def after (checking : Checking) (marks : List (Nat × Tag)) (breaches : List (Line × TypeError)) :
    Checking :=
  { tags := checking.tags.setAll marks, breaches := checking.breaches ++ breaches.toArray }

@[simp] theorem after_nil (checking : Checking) : checking.after [] [] = checking := by
  simp [after, TagTable.setAll]

@[simp] theorem after_after
    (checking : Checking)
    (marks marks' : List (Nat × Tag))
    (breaches breaches' : List (Line × TypeError)) :
    (checking.after marks breaches).after marks' breaches' =
      checking.after (marks ++ marks') (breaches ++ breaches') := by
  simp [after, TagTable.setAll, Array.append_assoc]

/-- A step that is followed by another one. -/
theorem run_bind_of_ok
    {step : CheckM α}
    {next : α -> CheckM β}
    {checking reached : Checking}
    {result : α}
    (done : step.run checking = .ok (result, reached)) :
    (step >>= next).run checking = (next result).run reached := by
  rw [StateT.run_bind, done]
  rfl

theorem run_breachIf
    (condition : Bool)
    (line : Line)
    (error : TypeError)
    (checking : Checking) :
    (breachIf condition line error).run checking =
      .ok ((), checking.after [] (if condition then [(line, error)] else [])) := by
  cases condition
  · simp [breachIf]
    rfl
  · simp [breachIf, after, TagTable.setAll]
    rfl

theorem run_tagAs
    (site : Site)
    (tag : Tag)
    (checking : Checking) :
    (tagAs site tag).run checking = .ok (tag, checking.after [(site.id, tag)] []) := by
  simp [after, TagTable.setAll]
  rfl

theorem run_allowed
    (result? : Option Tag)
    (standIn : Tag)
    (line : Line)
    (error : TypeError)
    (checking : Checking) :
    (allowed result? standIn line error).run checking =
      .ok (result?.getD standIn,
        checking.after [] (if result? = none then [(line, error)] else [])) := by
  cases result? with
  | none =>
      simp [after, TagTable.setAll]
      rfl
  | some tag =>
      simp [after, TagTable.setAll]
      rfl

theorem run_declared
    (line : Line)
    (name : String)
    (checking : Checking) :
    (declared scope line name).run checking =
      .ok (scope.tagOf name, checking.after [] (scope.useBreaches line name)) := by
  unfold declared
  rw [run_bind_of_ok (run_breachIf _ _ _ _)]
  simp [Scope.useBreaches]
  rfl

/-- Checking an expression gives its tag, and sets and notes what the tree says. -/
theorem run_expr
    {forest : Forest}
    (expression : Expr)
    (grounded : expression.Grounded forest)
    (checking : Checking) :
    (Checking.expr scope expression).run checking =
      .ok (expression.tag scope,
        checking.after (expression.marks scope) (expression.breaches scope)) := by
  induction expression generalizing checking with
  | int site value => exact run_tagAs _ _ _
  | double site bits => exact run_tagAs _ _ _
  | bool site value => exact run_tagAs _ _ _
  | name site spelling =>
      rw [Checking.expr, run_bind_of_ok (run_declared _ _ _), run_tagAs]
      simp [Expr.tag, Expr.marks, Expr.breaches]
  | unary site op operand inductionHypothesis =>
      rw [Checking.expr, run_bind_of_ok (inductionHypothesis () grounded.2 _),
        run_bind_of_ok (run_allowed _ _ _ _ _), run_tagAs]
      simp [Expr.tag, Expr.marks, Expr.breaches]
  | binary site op left right leftHypothesis rightHypothesis =>
      rw [Checking.expr, run_bind_of_ok (leftHypothesis () grounded.2.1 _),
        run_bind_of_ok (rightHypothesis () grounded.2.2 _),
        run_bind_of_ok (run_allowed _ _ _ _ _), run_tagAs]
      simp [Expr.tag, Expr.marks, Expr.breaches]
  | assign site target value inductionHypothesis =>
      rw [Checking.expr, run_bind_of_ok (inductionHypothesis () grounded.2 _),
        run_bind_of_ok (run_declared _ _ _), run_bind_of_ok (run_breachIf _ _ _ _), run_tagAs]
      simp [Expr.tag, Expr.marks, Expr.breaches]
  | dangling number => exact grounded.elim

/-- Checking a condition notes a breach if it is no truth value. -/
theorem run_condition
    {forest : Forest}
    (construct : Construct)
    (line : Line)
    (test : Expr)
    (grounded : test.Grounded forest)
    (checking : Checking) :
    (condition scope construct line test).run checking =
      .ok ((), checking.after (test.marks scope)
        (test.breaches scope ++ construct.conditionBreaches line (test.tag scope))) := by
  unfold condition
  rw [run_bind_of_ok (run_expr test grounded _), run_breachIf]
  simp [Construct.conditionBreaches]

/-- Checking a statement sets and notes what the tree says. -/
theorem run_stmt
    {forest : Forest}
    (statement : Stmt)
    (grounded : statement.Grounded forest)
    (checking : Checking) :
    (Checking.stmt scope statement).run checking =
      .ok ((), checking.after (statement.marks scope) (statement.breaches scope)) := by
  induction statement generalizing checking with
  | done => simp [Stmt.marks, Stmt.breaches]; rfl
  | seq first rest firstHypothesis restHypothesis =>
      rw [Checking.stmt, run_bind_of_ok (firstHypothesis grounded.1 _),
        restHypothesis grounded.2]
      simp [Stmt.marks, Stmt.breaches]
  | block line body inductionHypothesis =>
      rw [Checking.stmt, inductionHypothesis () grounded]
      rfl
  | expr line value =>
      rw [Checking.stmt, run_bind_of_ok (run_expr value grounded _)]
      rfl
  | branch line test yes no yesHypothesis noHypothesis =>
      rw [Checking.stmt, run_bind_of_ok (run_condition _ _ _ grounded.1 _),
        run_bind_of_ok (yesHypothesis () grounded.2.1 _), noHypothesis () grounded.2.2]
      simp [Stmt.marks, Stmt.breaches]
  | loop line test body inductionHypothesis =>
      rw [Checking.stmt, run_bind_of_ok (run_condition _ _ _ grounded.1 _),
        inductionHypothesis () grounded.2]
      simp [Stmt.marks, Stmt.breaches]
  | write line value format =>
      rw [Checking.stmt, run_bind_of_ok (run_expr value grounded _), run_breachIf]
      simp [Stmt.marks, Stmt.breaches]
  | writeText line number => simp [Stmt.marks, Stmt.breaches]; rfl
  | read line target format =>
      rw [Checking.stmt, run_bind_of_ok (run_declared _ _ _), run_breachIf]
      simp [Stmt.marks, Stmt.breaches]
  | leave line => simp [Stmt.marks, Stmt.breaches]; rfl
  | dangling number => exact grounded.elim

end Checking

/-- Checking a well-founded program never meets a number that leads nowhere, and finds what the tree
of the program says. -/
theorem Program.WellFounded.check_eq
    {program : Program}
    (wellFounded : program.WellFounded) :
    program.check = .ok
      ((TagTable.blank program.forest).setAll (program.tree.marks program.scope),
        (program.tree.breaches program.scope).map fun breach => breach.2.diagnostic breach.1) := by
  unfold Program.check
  rw [Checking.run_stmt program.tree wellFounded.grounded_tree]
  simp only [Checking.after, Checking.start, Array.empty_append]
  rfl

namespace TagTable

@[simp] theorem size_set (table : TagTable) (id : Nat) (tag : Tag) :
    (table.set id tag).tags.size = table.tags.size := by
  simp [set]

theorem get?_set
    (table : TagTable)
    (id other : Nat)
    (tag : Tag)
    (known : id < table.tags.size) :
    (table.set id tag).get? other = if id = other then some tag else table.get? other := by
  unfold set get?
  simp only [Array.getElem?_setIfInBounds]
  split
  · simp
  · rfl

/-- If the tags to be set agree with one function of the numbers, then each of them stands in the
table at the end. -/
theorem get?_setAll
    (value : Nat -> Tag)
    (table : TagTable)
    (marks : List (Nat × Tag))
    (agree : ∀ mark ∈ marks, mark.1 < table.tags.size ∧ mark.2 = value mark.1) :
    ∀ id : Nat, (table.setAll marks).get? id =
      if id ∈ marks.map Prod.fst then some (value id) else table.get? id := by
  induction marks generalizing table with
  | nil => simp [setAll]
  | cons mark rest inductionHypothesis =>
      obtain ⟨known, mark_eq⟩ := agree mark (by simp)
      intro id
      have later := inductionHypothesis (table.set mark.1 mark.2)
        (fun other present => by simpa using agree other (by simp [present])) id
      change ((table.set mark.1 mark.2).setAll rest).get? id = _
      rw [later, get?_set table mark.1 id mark.2 known]
      by_cases same : mark.1 = id
      · subst same
        simp [mark_eq]
      · rw [if_neg same, List.map_cons]
        by_cases present : id ∈ rest.map Prod.fst
        · rw [if_pos present, if_pos (List.mem_cons_of_mem _ present)]
        · rw [if_neg present, if_neg (by simp [Ne.symm same, present])]

/-- A table holds all of the given tags. -/
def Holds (table : TagTable) (marks : List (Nat × Tag)) : Prop :=
  ∀ mark ∈ marks, table.get? mark.1 = some mark.2

theorem holds_append
    {table : TagTable}
    {first second : List (Nat × Tag)} :
    table.Holds (first ++ second) ↔ table.Holds first ∧ table.Holds second := by
  simp only [Holds, List.mem_append, or_imp, forall_and]

end TagTable

/-- Every tag that checking a grounded expression sets is that of the node it is set for. -/
theorem Expr.Grounded.mark_eq
    {forest : Forest}
    {scope : Scope}
    {expression : Expr}
    (grounded : expression.Grounded forest) :
    ∀ mark ∈ expression.marks scope,
      mark.1 < forest.exprs.size ∧ mark.2 = (forest.expr mark.1).tag scope := by
  have own : ∀ (site : Site) (tree : Expr), forest.LeadsTo site tree ->
      site.id < forest.exprs.size ∧ tree.tag scope = (forest.expr site.id).tag scope := by
    rintro site tree ⟨known, leads⟩
    exact ⟨known, by rw [leads]⟩
  induction expression with
  | int site value => simpa [Expr.marks] using own site _ grounded
  | double site bits => simpa [Expr.marks] using own site _ grounded
  | bool site value => simpa [Expr.marks] using own site _ grounded
  | name site spelling => simpa [Expr.marks] using own site _ grounded
  | unary site op operand inductionHypothesis =>
      intro mark present
      obtain present | rfl := by simpa [Expr.marks] using present
      · exact inductionHypothesis () grounded.2 mark present
      · exact own site _ grounded.1
  | binary site op left right leftHypothesis rightHypothesis =>
      intro mark present
      obtain present | present | rfl := by simpa [Expr.marks] using present
      · exact leftHypothesis () grounded.2.1 mark present
      · exact rightHypothesis () grounded.2.2 mark present
      · exact own site _ grounded.1
  | assign site target value inductionHypothesis =>
      intro mark present
      obtain present | rfl := by simpa [Expr.marks] using present
      · exact inductionHypothesis () grounded.2 mark present
      · exact own site _ grounded.1
  | dangling number => exact grounded.elim

/-- Every tag that checking a grounded statement sets is that of the node it is set for. -/
theorem Stmt.Grounded.mark_eq
    {forest : Forest}
    {scope : Scope}
    {statement : Stmt}
    (grounded : statement.Grounded forest) :
    ∀ mark ∈ statement.marks scope,
      mark.1 < forest.exprs.size ∧ mark.2 = (forest.expr mark.1).tag scope := by
  induction statement with
  | seq first rest firstHypothesis restHypothesis =>
      intro mark present
      obtain present | present := List.mem_append.1 present
      · exact firstHypothesis grounded.1 mark present
      · exact restHypothesis grounded.2 mark present
  | block line body inductionHypothesis => exact inductionHypothesis () grounded
  | expr line value => exact Expr.Grounded.mark_eq grounded
  | branch line condition yes no yesHypothesis noHypothesis =>
      intro mark present
      obtain present | present | present := by simpa [Stmt.marks] using present
      · exact Expr.Grounded.mark_eq grounded.1 mark present
      · exact yesHypothesis () grounded.2.1 mark present
      · exact noHypothesis () grounded.2.2 mark present
  | loop line condition body inductionHypothesis =>
      intro mark present
      obtain present | present := List.mem_append.1 present
      · exact Expr.Grounded.mark_eq grounded.1 mark present
      · exact inductionHypothesis () grounded.2 mark present
  | write line value format => exact Expr.Grounded.mark_eq grounded
  | _ => simp [Stmt.marks]

/-- The table that checking returns holds every tag that checking set. -/
theorem Program.WellFounded.holds_marks
    {program : Program}
    (wellFounded : program.WellFounded) :
    ((TagTable.blank program.forest).setAll (program.tree.marks program.scope)).Holds
      (program.tree.marks program.scope) := by
  have mark_eq : ∀ mark ∈ program.tree.marks program.scope,
      mark.1 < program.forest.exprs.size ∧
        mark.2 = (program.forest.expr mark.1).tag program.scope :=
    wellFounded.grounded_tree.mark_eq
  intro mark present
  rw [TagTable.get?_setAll (fun id => (program.forest.expr id).tag program.scope)]
  · rw [if_pos (List.mem_map_of_mem present), (mark_eq mark present).2]
  · intro other otherPresent
    simpa [TagTable.blank] using mark_eq other otherPresent

/-- The type of a typed expression is its tag. -/
theorem Expr.HasType.tag_eq
    {scope : Scope}
    {expression : Expr}
    {type : ValueType}
    (typed : expression.HasType scope type) :
    expression.tag scope = .value type := by
  induction typed with
  | int | double | bool => rfl
  | name site found => simp [Expr.tag, Scope.tagOf, found]
  | unary site operandTyped turns inductionHypothesis =>
      simp [Expr.tag, inductionHypothesis, Tag.unary?, Tag.type?,
        UnaryOp.result?_eq_some_iff.2 turns]
  | binary site leftTyped rightTyped combines leftHypothesis rightHypothesis =>
      simp [Expr.tag, leftHypothesis, rightHypothesis, Tag.binary?, Tag.type?,
        BinaryOp.result?_eq_some_iff.2 combines]
  | assign site valueTyped found takes inductionHypothesis =>
      simp [Expr.tag, Scope.tagOf, found]

/-- A variable whose use is no breach is declared. -/
theorem Scope.exists_lookup_of_useBreaches_eq_nil
    {scope : Scope}
    {line : Line}
    {name : String}
    (clean : scope.useBreaches line name = []) :
    ∃ declaration, scope.lookup name = some declaration := by
  cases found : scope.lookup name with
  | none => simp [Scope.useBreaches, Scope.tagOf, found] at clean
  | some declaration => exact ⟨declaration, rfl⟩

/-- An expression without breaches has a type. -/
theorem Expr.exists_hasType_of_breaches_eq_nil
    {forest : Forest}
    {scope : Scope}
    {expression : Expr}
    (grounded : expression.Grounded forest)
    (clean : expression.breaches scope = []) :
    ∃ type, expression.HasType scope type := by
  induction expression with
  | int site value => exact ⟨_, .int site value⟩
  | double site bits => exact ⟨_, .double site bits⟩
  | bool site value => exact ⟨_, .bool site value⟩
  | name site spelling =>
      obtain ⟨declaration, found⟩ := Scope.exists_lookup_of_useBreaches_eq_nil clean
      exact ⟨_, .name site found⟩
  | unary site op operand inductionHypothesis =>
      obtain ⟨operand_clean, own_clean⟩ := List.append_eq_nil_iff.1 clean
      obtain ⟨type, typed⟩ := inductionHypothesis () grounded.2 operand_clean
      cases result : op.result? type with
      | none => simp [typed.tag_eq, Tag.unary?, Tag.type?, result] at own_clean
      | some resultType =>
          exact ⟨resultType, .unary site typed (UnaryOp.result?_eq_some_iff.1 result)⟩
  | binary site op left right leftHypothesis rightHypothesis =>
      obtain ⟨operands_clean, own_clean⟩ := List.append_eq_nil_iff.1 clean
      obtain ⟨left_clean, right_clean⟩ := List.append_eq_nil_iff.1 operands_clean
      obtain ⟨leftType, leftTyped⟩ := leftHypothesis () grounded.2.1 left_clean
      obtain ⟨rightType, rightTyped⟩ := rightHypothesis () grounded.2.2 right_clean
      cases result : op.result? leftType rightType with
      | none =>
          simp [leftTyped.tag_eq, rightTyped.tag_eq, Tag.binary?, Tag.type?, result] at own_clean
      | some resultType =>
          exact ⟨resultType,
            .binary site leftTyped rightTyped (BinaryOp.result?_eq_some_iff.1 result)⟩
  | assign site target value inductionHypothesis =>
      obtain ⟨parts_clean, own_clean⟩ := List.append_eq_nil_iff.1 clean
      obtain ⟨value_clean, target_clean⟩ := List.append_eq_nil_iff.1 parts_clean
      obtain ⟨valueType, valueTyped⟩ := inductionHypothesis () grounded.2 value_clean
      obtain ⟨declaration, found⟩ := Scope.exists_lookup_of_useBreaches_eq_nil target_clean
      have accepted : declaration.type.accepts valueType = true := by
        simpa [valueTyped.tag_eq, Scope.tagOf, found, Tag.accepts] using own_clean
      exact ⟨_, .assign site valueTyped found (ValueType.accepts_iff.1 accepted)⟩
  | dangling number => exact grounded.elim

/-- A condition without breaches is a truth value. -/
theorem Construct.hasType_bool_of_clean
    {forest : Forest}
    {scope : Scope}
    {construct : Construct}
    {line : Line}
    {test : Expr}
    (grounded : test.Grounded forest)
    (test_clean : test.breaches scope = [])
    (own_clean : construct.conditionBreaches line (test.tag scope) = []) :
    test.HasType scope .bool := by
  obtain ⟨type, typed⟩ := Expr.exists_hasType_of_breaches_eq_nil grounded test_clean
  have type_eq : type = .bool := by
    simpa [Construct.conditionBreaches, typed.tag_eq] using own_clean
  exact type_eq ▸ typed

/-- A statement without breaches is well typed. -/
theorem Stmt.wellTyped_of_breaches_eq_nil
    {forest : Forest}
    {scope : Scope}
    {statement : Stmt}
    (grounded : statement.Grounded forest)
    (clean : statement.breaches scope = []) :
    statement.WellTyped scope := by
  induction statement with
  | done => exact .done
  | seq first rest firstHypothesis restHypothesis =>
      obtain ⟨first_clean, rest_clean⟩ := List.append_eq_nil_iff.1 clean
      exact .seq (firstHypothesis grounded.1 first_clean) (restHypothesis grounded.2 rest_clean)
  | block line body inductionHypothesis =>
      exact .block line (inductionHypothesis () grounded clean)
  | expr line value =>
      obtain ⟨type, typed⟩ := Expr.exists_hasType_of_breaches_eq_nil grounded clean
      exact .expr line typed
  | branch line condition yes no yesHypothesis noHypothesis =>
      obtain ⟨above_clean, no_clean⟩ := List.append_eq_nil_iff.1 clean
      obtain ⟨test_clean, yes_clean⟩ := List.append_eq_nil_iff.1 above_clean
      obtain ⟨condition_clean, own_clean⟩ := List.append_eq_nil_iff.1 test_clean
      exact .branch line (Construct.hasType_bool_of_clean grounded.1 condition_clean own_clean)
        (yesHypothesis () grounded.2.1 yes_clean) (noHypothesis () grounded.2.2 no_clean)
  | loop line condition body inductionHypothesis =>
      obtain ⟨test_clean, body_clean⟩ := List.append_eq_nil_iff.1 clean
      obtain ⟨condition_clean, own_clean⟩ := List.append_eq_nil_iff.1 test_clean
      exact .loop line (Construct.hasType_bool_of_clean grounded.1 condition_clean own_clean)
        (inductionHypothesis () grounded.2 body_clean)
  | write line value format =>
      obtain ⟨value_clean, own_clean⟩ := List.append_eq_nil_iff.1 clean
      obtain ⟨type, typed⟩ := Expr.exists_hasType_of_breaches_eq_nil grounded value_clean
      have allowed : format.canWrite type = true := by
        simpa [typed.tag_eq, Tag.type?] using own_clean
      exact .write line typed (Format.canWrite_iff.1 allowed)
  | writeText line number => exact .writeText line number
  | read line target format =>
      obtain ⟨target_clean, own_clean⟩ := List.append_eq_nil_iff.1 clean
      obtain ⟨declaration, found⟩ := Scope.exists_lookup_of_useBreaches_eq_nil target_clean
      have allowed : format.canRead declaration.type = true := by
        simpa [Scope.tagOf, found, Tag.type?] using own_clean
      exact .read line found (Format.canRead_iff.1 allowed)
  | leave line => exact .leave line
  | dangling number => exact grounded.elim

/-- If checking a well-founded program reports nothing, the program is well typed and the returned
table holds the type of every expression that was reached. -/
theorem Program.WellFounded.accepted
    {program : Program}
    (wellFounded : program.WellFounded)
    {tags : TagTable}
    (accepts : program.check = .ok (tags, [])) :
    program.tree.WellTyped program.scope ∧ tags.Holds (program.tree.marks program.scope) := by
  rw [wellFounded.check_eq, Except.ok.injEq, Prod.mk.injEq, List.map_eq_nil_iff] at accepts
  obtain ⟨rfl, clean⟩ := accepts
  exact ⟨Stmt.wellTyped_of_breaches_eq_nil wellFounded.grounded_tree clean,
    wellFounded.holds_marks⟩

end MiniLang
