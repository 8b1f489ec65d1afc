import MiniLang.Proofs.Code.Agreement

/-!
# What the generator refuses

The generator may be run on a program about which checking reports problems.  It has no code for an
expression without a type, nor for a value that cannot be read or written, wherever these stand in
the body.  A condition that is a number is another matter: the generator branches on it without
asking for its type, so it is the one problem that goes through.
-/

namespace MiniLang
namespace Lowering

variable {context : Context} {registers labels registers' labels' : Nat}

/-- A prefix operator has code only for types that it takes. -/
theorem UnaryCode.exists_turns
    {op : UnaryOp}
    {type : ValueType}
    {value result : Operand}
    {code : List Item}
    (unaryCode : UnaryCode op type value registers code result registers') :
    ∃ resultType, op.Turns type resultType := by
  cases unaryCode with
  | applied lowered =>
      cases lowered with
      | negInt => exact ⟨_, .negInt⟩
      | negDouble => exact ⟨_, .negDouble⟩
      | bitNot => exact ⟨_, .bitNot⟩
      | not => exact ⟨_, .not⟩
      | truncate => exact ⟨_, .toInt _⟩
      | extend => exact ⟨_, .toInt _⟩
      | promote => exact ⟨_, .toDouble rfl⟩
  | kept identity =>
      cases identity with
      | int => exact ⟨_, .toInt _⟩
      | double => exact ⟨_, .toDouble rfl⟩

/-- An infix operator that is not logical has an operation only on types that it combines. -/
theorem exists_combines
    {op : BinaryOp}
    {left right type : ValueType}
    {operation : Operation}
    (plain : op.family ≠ .logical)
    (common : commonType? left right = some type)
    (lowered : operation? op type = some operation) :
    ∃ result, op.Combines left right result := by
  suffices ∃ result, op.result? left right = some result by
    simpa only [BinaryOp.result?_eq_some_iff] using this
  cases op <;> cases left <;> cases right <;>
    simp [BinaryOp.family, commonType?, ValueType.isNumeric] at plain common <;>
    subst common <;>
    simp [operation?] at lowered <;>
    exact ⟨_, rfl⟩

/-- Only an expression with a type has code. -/
theorem ExprCode.exists_checks
    {expression : Expr}
    {code : List Item}
    {operand : Operand}
    (emitted : ExprCode context expression registers labels code operand registers' labels')
    (holds : context.tags.Holds (expression.marks context.scope)) :
    ∃ type, context.Checks expression type := by
  induction emitted with
  | int site value => exact ⟨_, .int site value, holds⟩
  | double site bits => exact ⟨_, .double site bits, holds⟩
  | bool site value => exact ⟨_, .bool site value, holds⟩
  | name site spelling registers labels tagged found => exact ⟨_, .name site found, holds⟩
  | assign site target tagged valueTagged valueCode found accepts coerced inductionHypothesis =>
      obtain ⟨type, checks⟩ := inductionHypothesis (TagTable.holds_append.1 holds).1
      have valueTyped := (checks.of_tagged valueTagged).typed
      exact ⟨_, .assign site valueTyped found (ValueType.accepts_iff.1 accepts), holds⟩
  | unary site op tagged operandTagged operandCode unaryCode inductionHypothesis =>
      obtain ⟨type, checks⟩ := inductionHypothesis (TagTable.holds_append.1 holds).1
      have operandTyped := (checks.of_tagged operandTagged).typed
      obtain ⟨resultType, turns⟩ := unaryCode.exists_turns
      exact ⟨_, .unary site operandTyped turns, holds⟩
  | binary site op plain tagged leftTagged rightTagged leftEmitted rightEmitted common leftCoerced
      rightCoerced lowered result_eq leftHypothesis rightHypothesis =>
      obtain ⟨left_holds, right_holds⟩ :=
        TagTable.holds_append.1 (TagTable.holds_append.1 holds).1
      obtain ⟨leftType, leftChecks⟩ := leftHypothesis left_holds
      obtain ⟨rightType, rightChecks⟩ := rightHypothesis right_holds
      have leftTyped := (leftChecks.of_tagged leftTagged).typed
      have rightTyped := (rightChecks.of_tagged rightTagged).typed
      obtain ⟨resultType, combines⟩ := exists_combines plain common lowered
      exact ⟨_, .binary site leftTyped rightTyped combines, holds⟩
  | logical site op logical tagged leftTagged rightTagged leftEmitted rightEmitted leftHypothesis
      rightHypothesis =>
      obtain ⟨left_holds, right_holds⟩ :=
        TagTable.holds_append.1 (TagTable.holds_append.1 holds).1
      obtain ⟨leftType, leftChecks⟩ := leftHypothesis left_holds
      obtain ⟨rightType, rightChecks⟩ := rightHypothesis right_holds
      have leftTyped := (leftChecks.of_tagged leftTagged).typed
      have rightTyped := (rightChecks.of_tagged rightTagged).typed
      exact ⟨_, .binary site leftTyped rightTyped (.logical logical), holds⟩

end Lowering

/-- A breach that a condition is a number. -/
def TypeError.OnNumber (error : TypeError) : Prop :=
  ∃ (construct : Construct) (type : ValueType),
    type.isNumeric = true ∧ error = .condition construct.keyword.spelling (.value type)

/-- A condition with a type is a breach only if it is a number. -/
theorem Expr.HasType.onNumber
    {scope : Scope}
    {condition : Expr}
    {type : ValueType}
    (typed : condition.HasType scope type)
    (construct : Construct)
    (line : Line) :
    ∀ breach ∈ construct.conditionBreaches line (condition.tag scope), breach.2.OnNumber := by
  intro breach present
  rw [typed.tag_eq] at present
  unfold Construct.conditionBreaches at present
  cases type with
  | bool => exact absurd present List.not_mem_nil
  | int =>
      obtain rfl := List.mem_singleton.1 present
      exact ⟨construct, .int, rfl, rfl⟩
  | double =>
      obtain rfl := List.mem_singleton.1 present
      exact ⟨construct, .double, rfl, rfl⟩

namespace Lowering

variable {context : Context} {registers labels registers' labels' : Nat}

/-- A statement that has code has no breaches but conditions that are numbers. -/
theorem StmtCode.onNumber
    {statement : Stmt}
    {code : List Item}
    (emitted : StmtCode context statement registers labels code registers' labels')
    (holds : context.tags.Holds (statement.marks context.scope)) :
    ∀ breach ∈ statement.breaches context.scope, breach.2.OnNumber := by
  -- The expression of a statement with code is typed, so it brings in no breach of its own.
  have clean : ∀ {expression : Expr} {type : ValueType}, context.Checks expression type ->
      ∀ breach ∈ expression.breaches context.scope, breach.2.OnNumber := by
    intro expression type checks
    simp [checks.typed.breaches_eq_nil]
  induction emitted with
  | done | writeText | leave => simp [Stmt.breaches]
  | seq firstEmitted restEmitted firstHypothesis restHypothesis =>
      obtain ⟨first_holds, rest_holds⟩ := TagTable.holds_append.1 holds
      exact List.forall_mem_append.2 ⟨firstHypothesis first_holds, restHypothesis rest_holds⟩
  | block line emitted inductionHypothesis => exact inductionHypothesis holds
  | expr line emitted =>
      obtain ⟨type, checks⟩ := emitted.exists_checks holds
      exact clean checks
  | branch line testEmitted yesEmitted noEmitted yesHypothesis noHypothesis =>
      obtain ⟨above_hold, no_holds⟩ := TagTable.holds_append.1 holds
      obtain ⟨test_holds, yes_holds⟩ := TagTable.holds_append.1 above_hold
      obtain ⟨type, checks⟩ := testEmitted.exists_checks test_holds
      refine List.forall_mem_append.2 ⟨List.forall_mem_append.2 ⟨?_, yesHypothesis yes_holds⟩,
        noHypothesis no_holds⟩
      exact List.forall_mem_append.2 ⟨clean checks, checks.typed.onNumber .branch line⟩
  | loop line testEmitted bodyEmitted inductionHypothesis =>
      obtain ⟨test_holds, body_holds⟩ := TagTable.holds_append.1 holds
      obtain ⟨type, checks⟩ := testEmitted.exists_checks test_holds
      refine List.forall_mem_append.2 ⟨?_, inductionHypothesis body_holds⟩
      exact List.forall_mem_append.2 ⟨clean checks, checks.typed.onNumber .loop line⟩
  | @write line value format type _ _ _ _ _ _ _ _ tagged emitted print =>
      obtain ⟨_, checks⟩ := emitted.exists_checks holds
      have typed := (checks.of_tagged tagged).typed
      have allowed : format.canWrite type = true := by cases print <;> rfl
      refine List.forall_mem_append.2 ⟨clean checks, ?_⟩
      simp [typed.tag_eq, Tag.type?, allowed]
  | @read line target format declaration template registers labels found scan =>
      have allowed : format.canRead declaration.type = true := by
        generalize declaration.type = type at scan
        cases scan <;> rfl
      refine List.forall_mem_append.2 ⟨?_, ?_⟩
      · simp [Scope.useBreaches_eq_nil found]
      · simp [Scope.tagOf, found, Tag.type?, allowed]

/-- A step of the generator never fails on a number that leads nowhere. -/
def Grounds (step : LowerM α) : Prop :=
  ∀ lowering number, step.run lowering ≠ .error (.dangling number)

/-- A step that goes through from every state never fails. -/
theorem Total.grounds
    {step : LowerM α}
    (total : Total step) :
    Grounds step := by
  intro lowering number failed
  obtain ⟨result, ran⟩ := total lowering
  cases ran.symm.trans failed

/-- Steps that never fail on such a number do not do so together. -/
theorem Grounds.bind
    {step : LowerM α}
    {next : α -> LowerM β}
    (grounds : Grounds step)
    (next_grounds : ∀ result, Grounds (next result)) :
    Grounds (step >>= next) := by
  intro lowering number failed
  rw [StateT.run_bind] at failed
  cases ran : step.run lowering with
  | error error =>
      rw [ran] at failed
      obtain rfl : error = .dangling number := Except.error.inj failed
      exact grounds lowering number ran
  | ok reached =>
      rw [ran] at failed
      exact next_grounds reached.1 reached.2 number failed

/-- Refusing for another reason is no such failure. -/
theorem grounds_throw
    {error : LowerError}
    (other : ∀ number, error ≠ .dangling number) :
    Grounds (throw error : LowerM α) := by
  intro lowering number failed
  exact other number (Except.error.inj failed)

theorem grounds_typeAt (site : Site) : Grounds (typeAt context site) := by
  unfold typeAt
  split
  · exact grounds_throw fun _ => LowerError.noConfusion
  · split
    · exact (total_pure _).grounds
    · exact grounds_throw fun _ => LowerError.noConfusion

theorem grounds_slotType (name : String) (line : Line) : Grounds (slotType context name line) := by
  unfold slotType
  split
  · exact (total_pure _).grounds
  · exact grounds_throw fun _ => LowerError.noConfusion

/-- A grounded expression has a site. -/
theorem total_siteOf
    {forest : Forest}
    {expression : Expr}
    (grounded : expression.Grounded forest) :
    Total (siteOf expression) := by
  cases expression with
  | dangling number => exact grounded.elim
  | _ => exact total_pure _

theorem grounds_typeOf
    {forest : Forest}
    {expression : Expr}
    (grounded : expression.Grounded forest) :
    Grounds (typeOf context expression) :=
  (total_siteOf grounded).grounds.bind fun site => grounds_typeAt site

theorem grounds_unary (op : UnaryOp) (type : ValueType) (value : Operand) (line : Line) :
    Grounds (unary op type value line) := by
  unfold unary
  split
  all_goals first
    | exact (total_define _).grounds
    | exact (total_pure _).grounds
    | exact grounds_throw fun _ => LowerError.noConfusion

theorem grounds_binary (op : BinaryOp) (leftType rightType resultType : ValueType)
    (left right : Operand) (line : Line) :
    Grounds (binary op leftType rightType resultType left right line) := by
  unfold binary
  dsimp only
  split
  · exact grounds_throw fun _ => LowerError.noConfusion
  · refine (total_coerce _ _ _).grounds.bind fun _ => (total_coerce _ _ _).grounds.bind fun _ => ?_
    split
    · exact grounds_throw fun _ => LowerError.noConfusion
    · split
      · exact (total_define _).grounds
      · exact grounds_throw fun _ => LowerError.noConfusion

theorem grounds_assign (target : Target) (valueType : ValueType) (value : Operand) :
    Grounds (assign context target valueType value) := by
  refine (grounds_slotType _ _).bind fun type => ?_
  split
  · exact ((total_coerce _ _ _).bind fun _ => (total_emit _).bind fun _ => total_pure _).grounds
  · exact grounds_throw fun _ => LowerError.noConfusion

/-- The generator meets no number that leads nowhere in a grounded expression. -/
theorem grounds_expr
    {forest : Forest}
    {expression : Expr}
    (grounded : expression.Grounded forest) :
    Grounds (Lowering.expr context expression) := by
  induction expression with
  | int | double | bool => exact (grounds_typeAt _).bind fun _ => (total_pure _).grounds
  | name site spelling =>
      exact (grounds_typeAt _).bind fun _ => (grounds_slotType _ _).bind fun _ =>
        (total_define _).grounds
  | unary site op operand inductionHypothesis =>
      exact (grounds_typeAt _).bind fun _ => (grounds_typeOf grounded.2).bind fun _ =>
        (inductionHypothesis () grounded.2).bind fun _ => grounds_unary _ _ _ _
  | binary site op left right leftHypothesis rightHypothesis =>
      have left_grounds := leftHypothesis () grounded.2.1
      have right_grounds := rightHypothesis () grounded.2.2
      rw [Lowering.expr]
      refine (grounds_typeAt _).bind fun _ => (grounds_typeOf grounded.2.1).bind fun _ =>
        (grounds_typeOf grounded.2.2).bind fun _ => ?_
      split
      · split
        · refine left_grounds.bind fun _ => total_newLabel.grounds.bind fun _ =>
            (total_emit _).grounds.bind fun _ => (total_openBlock _).grounds.bind fun _ =>
            total_newLabel.grounds.bind fun _ => total_newLabel.grounds.bind fun _ =>
            total_newLabel.grounds.bind fun _ => ?_
          dsimp only
          split
          all_goals
            exact (total_emit _).grounds.bind fun _ => (total_openBlock _).grounds.bind fun _ =>
              right_grounds.bind fun _ => (total_emit _).grounds.bind fun _ =>
              (total_openBlock _).grounds.bind fun _ => (total_emit _).grounds.bind fun _ =>
              (total_openBlock _).grounds.bind fun _ => (total_define _).grounds
        · exact (total_siteOf grounded.2.1).grounds.bind fun _ =>
            grounds_throw fun _ => LowerError.noConfusion
      · exact left_grounds.bind fun _ => right_grounds.bind fun _ => grounds_binary _ _ _ _ _ _ _
  | assign site target value inductionHypothesis =>
      exact (grounds_typeAt _).bind fun _ => (grounds_typeOf grounded.2).bind fun _ =>
        (inductionHypothesis () grounded.2).bind fun _ => grounds_assign _ _ _
  | dangling number => exact grounded.elim

theorem grounds_print (format : Format) (type : ValueType) (value : Operand) (line : Line) :
    Grounds (print format type value line) := by
  unfold print
  split
  · exact (total_emit _).grounds
  · exact (total_emit _).grounds
  · exact (total_emit _).grounds
  · exact (total_newRegister.bind fun _ => (total_emit _).bind fun _ => total_emit _).grounds
  · exact grounds_throw fun _ => LowerError.noConfusion

theorem grounds_scan (target : Target) (format : Format) :
    Grounds (scan context target format) := by
  refine (grounds_slotType _ _).bind fun type => ?_
  split
  · exact (total_emit _).grounds
  · exact (total_emit _).grounds
  · exact (total_emit _).grounds
  · exact grounds_throw fun _ => LowerError.noConfusion

/-- The generator meets no number that leads nowhere in a grounded statement. -/
theorem grounds_stmt
    {forest : Forest}
    {statement : Stmt}
    (texts_eq : context.texts = forest.texts)
    (grounded : statement.Grounded forest) :
    Grounds (Lowering.stmt context statement) := by
  induction statement with
  | done => exact (total_pure ()).grounds
  | seq first rest firstHypothesis restHypothesis =>
      exact (firstHypothesis grounded.1).bind fun _ => restHypothesis grounded.2
  | block line body inductionHypothesis => exact inductionHypothesis () grounded
  | expr line value => exact (grounds_expr grounded).bind fun _ => (total_pure ()).grounds
  | branch line condition yes no yesHypothesis noHypothesis =>
      rw [Lowering.stmt]
      exact (grounds_expr grounded.1).bind fun _ => total_newLabel.grounds.bind fun _ =>
        total_newLabel.grounds.bind fun _ => total_newLabel.grounds.bind fun _ =>
        (total_emit _).grounds.bind fun _ => (total_openBlock _).grounds.bind fun _ =>
        (yesHypothesis () grounded.2.1).bind fun _ => (total_emit _).grounds.bind fun _ =>
        (total_openBlock _).grounds.bind fun _ => (noHypothesis () grounded.2.2).bind fun _ =>
        (total_emit _).grounds.bind fun _ => (total_openBlock _).grounds
  | loop line condition body inductionHypothesis =>
      rw [Lowering.stmt]
      exact total_newLabel.grounds.bind fun _ => (total_emit _).grounds.bind fun _ =>
        (total_openBlock _).grounds.bind fun _ => (grounds_expr grounded.1).bind fun _ =>
        total_newLabel.grounds.bind fun _ => total_newLabel.grounds.bind fun _ =>
        (total_emit _).grounds.bind fun _ => (total_openBlock _).grounds.bind fun _ =>
        (inductionHypothesis () grounded.2).bind fun _ => (total_emit _).grounds.bind fun _ =>
        (total_openBlock _).grounds
  | write line value format =>
      exact (grounds_typeOf grounded).bind fun _ => (grounds_expr grounded).bind fun _ =>
        grounds_print _ _ _ _
  | writeText line number =>
      have known : number < context.texts.constants.size := by
        rw [texts_eq]
        exact grounded
      rw [Lowering.stmt]
      simp only [TextPool.get?, Array.getElem?_eq_getElem known, Option.map_some]
      exact (total_emit _).grounds
  | read line target format => exact grounds_scan _ _
  | leave line =>
      exact ((total_emit _).bind fun _ => total_newLabel.bind fun _ => total_openBlock _).grounds
  | dangling number => exact grounded.elim

end Lowering

/-- A diagnostic that the condition of a branch or loop is no truth value. -/
def Diagnostic.OnCondition (diagnostic : Diagnostic) : Prop :=
  ∃ (construct : Construct) (found : Tag) (line : Line),
    diagnostic = (TypeError.condition construct.keyword.spelling found).diagnostic line

/-- A diagnostic that the condition of a branch or loop is a number. -/
def Diagnostic.OnNumber (diagnostic : Diagnostic) : Prop :=
  ∃ (construct : Construct) (type : ValueType) (line : Line), type.isNumeric = true ∧
    diagnostic = (TypeError.condition construct.keyword.spelling (.value type)).diagnostic line

theorem Diagnostic.OnNumber.onCondition
    {diagnostic : Diagnostic}
    (onNumber : diagnostic.OnNumber) :
    diagnostic.OnCondition := by
  obtain ⟨construct, type, line, -, rfl⟩ := onNumber
  exact ⟨construct, .value type, line, rfl⟩

/-- The first letter of a message tells the breach of a condition from all others. -/
theorem TypeError.onCondition_of_diagnostic
    {error : TypeError}
    {line : Line}
    (told : (error.diagnostic line).OnCondition) :
    error.OnCondition := by
  obtain ⟨construct, found, line', same⟩ := told
  have head_eq : error.message.toList.head? =
      (TypeError.condition construct.keyword.spelling found).message.toList.head? :=
    congrArg (fun diagnostic : Diagnostic => diagnostic.message.toList.head?) same
  cases error with
  | condition word found => exact ⟨word, found, rfl⟩
  | _ =>
      cases construct <;>
        unfold TypeError.message at head_eq <;>
        simp [Construct.keyword, Keyword.spelling] at head_eq

/-- Checking and then generating a well-founded program ends in a refusal exactly if checking
reports anything but conditions that are no truth values.  The refusal is never due to a number that
leads nowhere; and where code is generated all the same, all that was reported are conditions that
are numbers. -/
theorem generator_refuses_iff_breach
    {program : Program}
    (wellFounded : program.WellFounded) :
    ∃ tags diagnostics, program.check = .ok (tags, diagnostics) ∧
      ((∃ error, program.generate tags = .error error) ↔
        ∃ diagnostic ∈ diagnostics, ¬diagnostic.OnCondition) ∧
      (∀ number, program.generate tags ≠ .error (.dangling number)) ∧
      (∀ code, program.generate tags = .ok code ->
        ∀ diagnostic ∈ diagnostics, diagnostic.OnNumber) := by
  refine ⟨_, _, wellFounded.check_eq, ?_⟩
  have holds := wellFounded.holds_marks
  generalize (TagTable.blank program.forest).setAll _ = tags at holds ⊢
  have onNumber : ∀ code, program.generate tags = .ok code ->
      ∀ diagnostic ∈ (program.tree.breaches program.scope).map fun breach =>
        breach.2.diagnostic breach.1, diagnostic.OnNumber := by
    intro code generated
    obtain ⟨body, registers, labels, emitted, -⟩ := Program.stmtCode_of_generate generated
    refine List.forall_mem_map.2 fun breach present => ?_
    obtain ⟨construct, type, numeric, error_eq⟩ := emitted.onNumber holds breach present
    exact ⟨construct, type, breach.1, numeric, by rw [error_eq]⟩
  refine ⟨⟨?_, ?_⟩, ?_, onNumber⟩
  · rintro ⟨error, refused⟩
    refine Classical.byContradiction fun none_other => ?_
    have only : ∀ breach ∈ program.tree.breaches program.scope, breach.2.OnCondition := by
      intro breach present
      have told : (breach.2.diagnostic breach.1).OnCondition :=
        Classical.byContradiction fun other =>
          none_other ⟨_, List.mem_map_of_mem present, other⟩
      exact TypeError.onCondition_of_diagnostic told
    have body_total : Lowering.Total (Lowering.stmt (program.context tags) program.tree) :=
      Lowering.total_stmt rfl wellFounded.grounded_tree only holds
    have routine_total := body_total.bind fun _ => Lowering.total_emit .ret
    obtain ⟨reached, ran⟩ := routine_total (Lowering.atEntry program.scope)
    rw [Program.generate_eq, Lowering.routine, ran] at refused
    cases refused
  · rintro ⟨diagnostic, present, other⟩
    cases generated : program.generate tags with
    | error error => exact ⟨error, rfl⟩
    | ok code => exact absurd (onNumber code generated diagnostic present).onCondition other
  · intro number failed
    have body_grounds : Lowering.Grounds (Lowering.stmt (program.context tags) program.tree) :=
      Lowering.grounds_stmt rfl wellFounded.grounded_tree
    have routine_grounds := body_grounds.bind fun _ => (Lowering.total_emit .ret).grounds
    refine routine_grounds (Lowering.atEntry program.scope) number ?_
    rw [Program.generate_eq, Lowering.routine] at failed
    generalize StateT.run _ (Lowering.atEntry program.scope) = outcome at failed ⊢
    cases outcome with
    | error error =>
        cases failed
        rfl
    | ok reached => cases failed

/-- A program that writes a number for as long as another number holds. -/
def numericLoop : Program :=
  let one := (Forest.empty.addExpr 1 (.int 1)).2
  let two := (one.addExpr 2 (.int 2)).2
  let written := (two.addStmt 2 (.write 1 .plain)).2
  (Program.assemble [] [1] (written.addStmt 1 (.loop 0 0)).2).1

/-- Checking reports the condition of the loop, but the generator does not refuse it. -/
theorem numericLoop_generated :
    numericLoop.WellFounded ∧ ∃ tags diagnostic, numericLoop.check = .ok (tags, [diagnostic]) ∧
      diagnostic.OnCondition ∧ ∃ code, numericLoop.generate tags = .ok code := by
  have built : numericLoop.Built := by
    refine .assemble _ _ _ (.addStmt 1 _ (.addStmt 2 _ (.addExpr 2 _ (.addExpr 1 _ .empty ?_) ?_)
      ?_ ?_ rfl) ?_ ?_ rfl) ?_
    all_goals decide
  obtain ⟨tags, diagnostics, checked, refused_iff, -⟩ :=
    generator_refuses_iff_breach built.wellFounded
  have reported : numericLoop.check.map Prod.snd =
      .ok [(TypeError.condition Construct.loop.keyword.spelling (.value .int)).diagnostic 1] := by
    rfl
  rw [checked] at reported
  obtain rfl := Except.ok.inj reported
  have on_condition : Diagnostic.OnCondition
      ((TypeError.condition Construct.loop.keyword.spelling (.value .int)).diagnostic 1) :=
    ⟨.loop, .value .int, 1, rfl⟩
  refine ⟨built.wellFounded, tags, _, checked, on_condition, ?_⟩
  cases generated : numericLoop.generate tags with
  | ok code => exact ⟨code, rfl⟩
  | error error =>
      obtain ⟨diagnostic, present, other⟩ := refused_iff.1 ⟨error, generated⟩
      obtain rfl := List.mem_singleton.1 present
      exact absurd on_condition other

end MiniLang
