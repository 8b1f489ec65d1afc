import MiniLang.Compile
import MiniLang.Proofs.Code.Emission
import MiniLang.Proofs.Reading.WellFounded
import MiniLang.Proofs.Scope
import MiniLang.Proofs.Typing.Decision

/-!
# Checking and generating agree

The generator works out on its own which types the operators combine, and refuses what it has no
code for.  On a tree whose expressions have types and whose tags stand in the table it refuses
nothing, be its conditions truth values or not: each step of the generator goes through from every
state.  Together with the forests that readings build this means that compiling a source text never
ends in a refusal.
-/

namespace MiniLang
namespace Lowering

variable {context : Context}

/-- A step of the generator goes through from every state. -/
def Total (step : LowerM α) : Prop :=
  ∀ lowering, ∃ result, step.run lowering = .ok result

/-- A step of the generator gives one result from every state and changes nothing. -/
def Gives (step : LowerM α) (result : α) : Prop :=
  ∀ lowering, step.run lowering = .ok (result, lowering)

theorem total_pure (result : α) : Total (pure result) := by
  intro lowering
  exact ⟨(result, lowering), rfl⟩

/-- Steps that go through one after the other go through together. -/
theorem Total.bind
    {step : LowerM α}
    {next : α -> LowerM β}
    (total : Total step)
    (next_total : ∀ result, Total (next result)) :
    Total (step >>= next) := by
  intro lowering
  obtain ⟨⟨result, reached⟩, ran⟩ := total lowering
  obtain ⟨final, next_ran⟩ := next_total result reached
  refine ⟨final, ?_⟩
  rw [StateT.run_bind, ran]
  exact next_ran

/-- After a step with a known result only what follows on that result has to go through. -/
theorem Gives.bind
    {step : LowerM α}
    {next : α -> LowerM β}
    {result : α}
    (gives : Gives step result)
    (next_total : Total (next result)) :
    Total (step >>= next) := by
  intro lowering
  obtain ⟨final, next_ran⟩ := next_total lowering
  refine ⟨final, ?_⟩
  rw [StateT.run_bind, gives lowering]
  exact next_ran

theorem total_emit (instr : Instr) : Total (emit instr) :=
  fun _ => ⟨_, rfl⟩

theorem total_openBlock (label : Label) : Total (openBlock label) :=
  fun _ => ⟨_, rfl⟩

theorem total_newRegister : Total newRegister :=
  fun _ => ⟨_, rfl⟩

theorem total_newLabel : Total newLabel :=
  fun _ => ⟨_, rfl⟩

theorem total_define (instr : Register -> Instr) : Total (define instr) :=
  total_newRegister.bind fun _ => (total_emit _).bind fun _ => total_pure _

theorem total_coerce
    (value : Operand)
    (type wanted : ValueType) :
    Total (coerce value type wanted) := by
  unfold coerce
  split
  · exact total_define _
  · exact total_pure _

/-- The type at a site is read off the table. -/
theorem gives_typeAt
    {site : Site}
    {type : ValueType}
    (tagged : context.tags.get? site.id = some (.value type)) :
    Gives (typeAt context site) type := by
  intro lowering
  unfold typeAt
  rw [tagged]
  rfl

/-- The slot of a declared variable has the declared type. -/
theorem gives_slotType
    {name : String}
    {declaration : Declaration}
    (found : context.scope.lookup name = some declaration)
    (line : Line) :
    Gives (slotType context name line) declaration.type := by
  intro lowering
  unfold slotType
  rw [found]
  rfl

/-- The type of a typed expression is read off a table that holds its tags. -/
theorem gives_typeOf
    {expression : Expr}
    {type : ValueType}
    (typed : expression.HasType context.scope type)
    (holds : context.tags.Holds (expression.marks context.scope)) :
    Gives (typeOf context expression) type := by
  have tag_eq := typed.tag_eq
  have own : ∀ site : Site, (site.id, expression.tag context.scope) ∈
      expression.marks context.scope -> Gives (typeAt context site) type := by
    intro site present
    exact gives_typeAt (by rw [← tag_eq]; exact holds _ present)
  cases typed with
  | int site value => exact own site (by simp [Expr.marks])
  | double site bits => exact own site (by simp [Expr.marks])
  | bool site value => exact own site (by simp [Expr.marks])
  | name site found => exact own site (by simp [Expr.marks])
  | unary site operandTyped turns => exact own site (by simp [Expr.marks])
  | binary site leftTyped rightTyped combines => exact own site (by simp [Expr.marks])
  | assign site valueTyped found takes => exact own site (by simp [Expr.marks])

/-- An expression has a type, and the table holds the tags of its parts. -/
structure Context.Checks (context : Context) (expression : Expr) (type : ValueType) : Prop where
  typed : expression.HasType context.scope type
  holds : context.tags.Holds (expression.marks context.scope)

namespace Context.Checks

variable {expression : Expr} {type : ValueType} {site : Site}

/-- The table gives an expression no type but its own. -/
theorem of_tagged
    {tagged : ValueType}
    (checks : context.Checks expression type)
    (tagged_eq : context.typeOf? expression = some tagged) :
    context.Checks expression tagged := by
  have type_eq := (typeOf?_of_run (gives_typeOf checks.typed checks.holds {})).1
  rw [tagged_eq, Option.some.injEq] at type_eq
  rw [type_eq]
  exact checks

/-- The value that is assigned. -/
theorem value
    {target : Target}
    {value : Unit -> Expr}
    {valueType : ValueType}
    (checks : context.Checks (.assign site target value) type)
    (tagged : context.typeOf? (value ()) = some valueType) :
    context.Checks (value ()) valueType := by
  obtain ⟨typed, holds⟩ := checks
  cases typed with
  | assign _ valueTyped _ takes =>
      exact of_tagged ⟨valueTyped, (TagTable.holds_append.mp holds).1⟩ tagged

/-- The operand of a prefix operator. -/
theorem operand
    {op : UnaryOp}
    {operand : Unit -> Expr}
    {operandType : ValueType}
    (checks : context.Checks (.unary site op operand) type)
    (tagged : context.typeOf? (operand ()) = some operandType) :
    context.Checks (operand ()) operandType := by
  obtain ⟨typed, holds⟩ := checks
  cases typed with
  | unary _ operandTyped turns =>
      exact of_tagged ⟨operandTyped, (TagTable.holds_append.mp holds).1⟩ tagged

/-- The operands of an infix operator. -/
theorem operands
    {op : BinaryOp}
    {left right : Unit -> Expr}
    {leftType rightType : ValueType}
    (checks : context.Checks (.binary site op left right) type)
    (leftTagged : context.typeOf? (left ()) = some leftType)
    (rightTagged : context.typeOf? (right ()) = some rightType) :
    context.Checks (left ()) leftType ∧ context.Checks (right ()) rightType := by
  obtain ⟨typed, holds⟩ := checks
  obtain ⟨leftHolds, rightHolds⟩ := TagTable.holds_append.mp (TagTable.holds_append.mp holds).1
  cases typed with
  | binary _ leftTyped rightTyped combines =>
      exact ⟨of_tagged ⟨leftTyped, leftHolds⟩ leftTagged,
        of_tagged ⟨rightTyped, rightHolds⟩ rightTagged⟩

end Context.Checks

/-- A statement is well typed, and the table holds the tags of its parts. -/
structure Context.ChecksStmt (context : Context) (statement : Stmt) : Prop where
  typed : statement.WellTyped context.scope
  holds : context.tags.Holds (statement.marks context.scope)

namespace Context.ChecksStmt

/-- The parts of statements one after the other. -/
theorem parts
    {first rest : Stmt}
    (checks : context.ChecksStmt (.seq first rest)) :
    context.ChecksStmt first ∧ context.ChecksStmt rest := by
  obtain ⟨firstHolds, restHolds⟩ := TagTable.holds_append.1 checks.holds
  cases checks.typed with
  | seq firstTyped restTyped => exact ⟨⟨firstTyped, firstHolds⟩, restTyped, restHolds⟩

/-- The parts of a branch. -/
theorem branch
    {line : Line}
    {condition : Expr}
    {yes no : Unit -> Stmt}
    (checks : context.ChecksStmt (.branch line condition yes no)) :
    context.Checks condition .bool ∧ context.ChecksStmt (yes ()) ∧ context.ChecksStmt (no ()) := by
  obtain ⟨above, noHolds⟩ := TagTable.holds_append.1 checks.holds
  obtain ⟨conditionHolds, yesHolds⟩ := TagTable.holds_append.1 above
  cases checks.typed with
  | branch _ conditionTyped yesTyped noTyped =>
      exact ⟨⟨conditionTyped, conditionHolds⟩, ⟨yesTyped, yesHolds⟩, noTyped, noHolds⟩

/-- The parts of a loop. -/
theorem loop
    {line : Line}
    {condition : Expr}
    {body : Unit -> Stmt}
    (checks : context.ChecksStmt (.loop line condition body)) :
    context.Checks condition .bool ∧ context.ChecksStmt (body ()) := by
  obtain ⟨conditionHolds, bodyHolds⟩ := TagTable.holds_append.1 checks.holds
  cases checks.typed with
  | loop _ conditionTyped bodyTyped =>
      exact ⟨⟨conditionTyped, conditionHolds⟩, bodyTyped, bodyHolds⟩

end Context.ChecksStmt

/-- A prefix operator has code for every type that it takes. -/
theorem total_unary
    {op : UnaryOp}
    {type result : ValueType}
    (turns : op.Turns type result)
    (value : Operand)
    (line : Line) :
    Total (unary op type value line) := by
  cases turns with
  | negInt => exact total_define _
  | negDouble => exact total_define _
  | bitNot => exact total_define _
  | not => exact total_define _
  | toInt type =>
      cases type with
      | int => exact total_pure _
      | double => exact total_define _
      | bool => exact total_define _
  | toDouble numeric =>
      cases type with
      | int => exact total_define _
      | double => exact total_pure _
      | bool => exact absurd numeric (by decide)

/-- For types that an infix operator combines there is a common type, an operation on it, and the
result of the operation has the type of the rules. -/
theorem exists_operation
    {op : BinaryOp}
    {left right result : ValueType}
    (plain : op.family ≠ .logical)
    (combines : op.Combines left right result) :
    ∃ type operation, commonType? left right = some type ∧ operation? op type = some operation ∧
      operation.operandType = type ∧ operation.resultType = result := by
  have table := BinaryOp.result?_eq_some_iff.2 combines
  cases op <;> cases left <;> cases right <;>
    simp [BinaryOp.family, BinaryOp.result?, ValueType.isNumeric] at plain table <;>
    subst table <;> exact ⟨_, _, rfl, rfl, rfl, rfl⟩

/-- An infix operator that is not logical has code for all types that it combines. -/
theorem total_binary
    {op : BinaryOp}
    {leftType rightType result : ValueType}
    (plain : op.family ≠ .logical)
    (combines : op.Combines leftType rightType result)
    (left right : Operand)
    (line : Line) :
    Total (binary op leftType rightType result left right line) := by
  obtain ⟨type, operation, common, lowered, _, result_eq⟩ := exists_operation plain combines
  unfold binary
  simp only [common]
  refine (total_coerce _ _ _).bind fun _ => (total_coerce _ _ _).bind fun _ => ?_
  simp only [lowered, result_eq, if_true]
  exact total_define _

/-- A declared variable can be assigned every value that it takes. -/
theorem total_assign
    {target : Target}
    {declaration : Declaration}
    {valueType : ValueType}
    (found : context.scope.lookup target.name = some declaration)
    (takes : declaration.type.Takes valueType)
    (value : Operand) :
    Total (assign context target valueType value) := by
  refine (gives_slotType found _).bind ?_
  simp only [ValueType.accepts_iff.2 takes, if_true]
  exact (total_coerce _ _ _).bind fun _ => (total_emit _).bind fun _ => total_pure _

/-- The generator refuses no typed expression whose tags stand in the table. -/
theorem total_expr
    {expression : Expr}
    {type : ValueType}
    (typed : expression.HasType context.scope type)
    (holds : context.tags.Holds (expression.marks context.scope)) :
    Total (Lowering.expr context expression) := by
  have own_type := gives_typeOf typed holds
  induction typed with
  | int site value =>
      exact Gives.bind own_type (total_pure _)
  | double site bits =>
      exact Gives.bind own_type (total_pure _)
  | bool site value =>
      exact Gives.bind own_type (total_pure _)
  | name site found =>
      exact Gives.bind own_type ((gives_slotType found _).bind (total_define _))
  | unary site operandTyped turns inductionHypothesis =>
      have operand_holds := (TagTable.holds_append.1 holds).1
      have operand_type := gives_typeOf operandTyped operand_holds
      refine Gives.bind own_type (operand_type.bind ?_)
      exact (inductionHypothesis operand_holds operand_type).bind fun _ => total_unary turns _ _
  | @binary site op left right leftType rightType result leftTyped rightTyped combines
      leftHypothesis rightHypothesis =>
      obtain ⟨operands_hold, _⟩ := TagTable.holds_append.1 holds
      obtain ⟨left_holds, right_holds⟩ := TagTable.holds_append.1 operands_hold
      have left_type := gives_typeOf leftTyped left_holds
      have right_type := gives_typeOf rightTyped right_holds
      have left_total := leftHypothesis left_holds left_type
      have right_total := rightHypothesis right_holds right_type
      rw [Lowering.expr]
      refine Gives.bind own_type (left_type.bind (right_type.bind ?_))
      split
      · next logical =>
        have both_bool : leftType = .bool ∧ rightType = .bool := by
          cases combines with
          | logical => exact ⟨rfl, rfl⟩
          | equalityOfBools => exact ⟨rfl, rfl⟩
          | _ => simp_all
        rw [if_pos both_bool]
        refine left_total.bind fun _ => total_newLabel.bind fun _ => (total_emit _).bind fun _ =>
          (total_openBlock _).bind fun _ => total_newLabel.bind fun _ =>
          total_newLabel.bind fun _ => total_newLabel.bind fun _ => ?_
        dsimp only
        split
        all_goals
          exact (total_emit _).bind fun _ => (total_openBlock _).bind fun _ =>
            right_total.bind fun _ => (total_emit _).bind fun _ => (total_openBlock _).bind fun _ =>
            (total_emit _).bind fun _ => (total_openBlock _).bind fun _ => total_define _
      · next plain =>
        exact left_total.bind fun _ => right_total.bind fun _ => total_binary plain combines _ _ _
  | assign site valueTyped found takes inductionHypothesis =>
      have value_holds := (TagTable.holds_append.1 holds).1
      have value_type := gives_typeOf valueTyped value_holds
      refine Gives.bind own_type (value_type.bind ?_)
      exact (inductionHypothesis value_holds value_type).bind fun _ => total_assign found takes _

/-- There is a template for every value that can be written. -/
theorem total_print
    {format : Format}
    {type : ValueType}
    (writes : format.Writes type)
    (value : Operand)
    (line : Line) :
    Total (print format type value line) := by
  cases writes with
  | plain type =>
      cases type with
      | int => exact total_emit _
      | double => exact total_emit _
      | bool => exact total_newRegister.bind fun _ => (total_emit _).bind fun _ => total_emit _
  | hex => exact total_emit _

/-- There is a template for every variable that can be read. -/
theorem total_scan
    {target : Target}
    {format : Format}
    {declaration : Declaration}
    (found : context.scope.lookup target.name = some declaration)
    (reads : format.Reads declaration.type) :
    Total (scan context target format) := by
  refine (gives_slotType found _).bind ?_
  generalize declaration.type = type at reads
  cases reads with
  | plain numeric =>
      cases type with
      | int => exact total_emit _
      | double => exact total_emit _
      | bool => exact absurd numeric (by decide)
  | hex => exact total_emit _

/-- The generator refuses no statement whose tags stand in the table and whose only breaches are
those of conditions. -/
theorem total_stmt
    {forest : Forest}
    {statement : Stmt}
    (texts_eq : context.texts = forest.texts)
    (grounded : statement.Grounded forest)
    (only : ∀ breach ∈ statement.breaches context.scope, breach.2.OnCondition)
    (holds : context.tags.Holds (statement.marks context.scope)) :
    Total (Lowering.stmt context statement) := by
  have test_total : ∀ {test : Expr}, test.Grounded forest ->
      (∀ breach ∈ test.breaches context.scope, breach.2.OnCondition) ->
      context.tags.Holds (test.marks context.scope) -> Total (Lowering.expr context test) := by
    intro test test_grounded test_only test_holds
    obtain ⟨type, typed⟩ := Expr.exists_hasType_of_onCondition test_grounded test_only
    exact total_expr typed test_holds
  induction statement with
  | done => exact total_pure ()
  | seq first rest firstHypothesis restHypothesis =>
      obtain ⟨first_only, rest_only⟩ := List.forall_mem_append.1 only
      obtain ⟨first_holds, rest_holds⟩ := TagTable.holds_append.1 holds
      exact (firstHypothesis grounded.1 first_only first_holds).bind fun _ =>
        restHypothesis grounded.2 rest_only rest_holds
  | block line body inductionHypothesis => exact inductionHypothesis () grounded only holds
  | expr line value => exact (test_total grounded only holds).bind fun _ => total_pure ()
  | branch line condition yes no yesHypothesis noHypothesis =>
      obtain ⟨above_only, no_only⟩ := List.forall_mem_append.1 only
      obtain ⟨test_only, yes_only⟩ := List.forall_mem_append.1 above_only
      obtain ⟨above_hold, no_holds⟩ := TagTable.holds_append.1 holds
      obtain ⟨test_holds, yes_holds⟩ := TagTable.holds_append.1 above_hold
      have condition_total := test_total grounded.1 (List.forall_mem_append.1 test_only).1 test_holds
      rw [Lowering.stmt]
      exact condition_total.bind fun _ => total_newLabel.bind fun _ =>
        total_newLabel.bind fun _ => total_newLabel.bind fun _ => (total_emit _).bind fun _ =>
        (total_openBlock _).bind fun _ =>
        (yesHypothesis () grounded.2.1 yes_only yes_holds).bind fun _ =>
        (total_emit _).bind fun _ => (total_openBlock _).bind fun _ =>
        (noHypothesis () grounded.2.2 no_only no_holds).bind fun _ => (total_emit _).bind fun _ =>
        total_openBlock _
  | loop line condition body inductionHypothesis =>
      obtain ⟨test_only, body_only⟩ := List.forall_mem_append.1 only
      obtain ⟨test_holds, body_holds⟩ := TagTable.holds_append.1 holds
      have condition_total := test_total grounded.1 (List.forall_mem_append.1 test_only).1 test_holds
      rw [Lowering.stmt]
      exact total_newLabel.bind fun _ => (total_emit _).bind fun _ =>
        (total_openBlock _).bind fun _ => condition_total.bind fun _ =>
        total_newLabel.bind fun _ => total_newLabel.bind fun _ => (total_emit _).bind fun _ =>
        (total_openBlock _).bind fun _ =>
        (inductionHypothesis () grounded.2 body_only body_holds).bind fun _ =>
        (total_emit _).bind fun _ => total_openBlock _
  | write line value format =>
      obtain ⟨value_only, own_only⟩ := List.forall_mem_append.1 only
      obtain ⟨type, typed⟩ := Expr.exists_hasType_of_onCondition grounded value_only
      have other : ¬(Checking.writeError format (value.tag context.scope)).OnCondition := by
        cases format <;> rintro ⟨word, found, ⟨⟩⟩
      have allowed : format.canWrite type = true := by
        simpa [typed.tag_eq, Tag.type?] using TypeError.OnCondition.not_test other own_only
      exact (gives_typeOf typed holds).bind ((total_expr typed holds).bind fun _ =>
        total_print (Format.canWrite_iff.1 allowed) _ _)
  | writeText line number =>
      have known : number < context.texts.constants.size := by
        rw [texts_eq]
        exact grounded
      rw [Lowering.stmt]
      simp only [TextPool.get?, Array.getElem?_eq_getElem known, Option.map_some]
      exact total_emit _
  | read line target format =>
      obtain ⟨use_only, own_only⟩ := List.forall_mem_append.1 only
      have declared := TypeError.OnCondition.not_test (by rintro ⟨word, found, ⟨⟩⟩) use_only
      have clean : context.scope.useBreaches target.line target.name = [] := if_neg declared
      obtain ⟨declaration, found⟩ := Scope.exists_lookup_of_useBreaches_eq_nil clean
      have other : ¬(Checking.readError format target.name
          (context.scope.tagOf target.name)).OnCondition := by
        cases format <;> rintro ⟨word, found, ⟨⟩⟩
      have allowed : format.canRead declaration.type = true := by
        simpa [Scope.tagOf, found, Tag.type?] using
          TypeError.OnCondition.not_test other own_only
      exact total_scan found (Format.canRead_iff.1 allowed)
  | leave line =>
      exact (total_emit _).bind fun _ => total_newLabel.bind fun _ => total_openBlock _
  | dangling number => exact grounded.elim

end Lowering

/-- The generator refuses no well-founded program that checking accepts. -/
theorem Program.WellFounded.exists_generate
    {program : Program}
    (wellFounded : program.WellFounded)
    {tags : TagTable}
    (accepts : program.check = .ok (tags, [])) :
    ∃ code, program.generate tags = .ok code := by
  obtain ⟨typed, holds⟩ := wellFounded.accepted accepts
  have only : ∀ breach ∈ program.tree.breaches program.scope, breach.2.OnCondition := by
    simp [typed.breaches_eq_nil]
  have body_total : Lowering.Total (Lowering.stmt (program.context tags) program.tree) :=
    Lowering.total_stmt rfl wellFounded.grounded_tree only holds
  have routine_total : Lowering.Total (Lowering.routine (program.context tags) program.tree) :=
    body_total.bind fun _ => Lowering.total_emit _
  obtain ⟨reached, ran⟩ := routine_total (Lowering.atEntry program.scope)
  rw [Program.generate_eq, ran]
  exact ⟨_, rfl⟩

/-- All numbers in a program lead somewhere: those in its nodes and in its body to nodes and string
constants, and those in the index of its scope to declarations. -/
structure Program.InBounds (program : Program) : Prop where
  expr : ∀ node ∈ program.forest.exprs, ∀ child ∈ node.form.children,
    child < program.forest.exprs.size
  stmt : ∀ node ∈ program.forest.stmts, ∀ child ∈ node.form.children,
    child < program.forest.stmts.size
  value : ∀ node ∈ program.forest.stmts, ∀ value ∈ node.form.values,
    value < program.forest.exprs.size
  text : ∀ node ∈ program.forest.stmts, ∀ number ∈ node.form.text?,
    number < program.forest.texts.size
  body : ∀ id ∈ program.body, id < program.forest.stmts.size
  place : ∀ (name : String) (place : Nat), program.scope.index[name]? = some place ->
    place < program.scope.entries.size

namespace Program.WellFounded

variable {program : Program}

/-- The scope of a well-founded program is consistent. -/
theorem consistent_scope (wellFounded : program.WellFounded) : program.scope.Consistent := by
  rw [wellFounded.scope_eq]
  exact Scope.Consistent.empty.declareAll program.declarations

/-- The numbers in a well-founded program lead somewhere. -/
theorem inBounds (wellFounded : program.WellFounded) : program.InBounds where
  expr := by
    intro node present child named
    obtain ⟨id, found⟩ := Array.getElem?_of_mem present
    have known := (Array.getElem?_eq_some_iff.1 found).1
    have below := wellFounded.forest.expr_lt id node found child named
    omega
  stmt := by
    intro node present child named
    obtain ⟨id, found⟩ := Array.getElem?_of_mem present
    have known := (Array.getElem?_eq_some_iff.1 found).1
    have below := wellFounded.forest.stmt_lt id node found child named
    omega
  value := by
    intro node present value named
    obtain ⟨id, found⟩ := Array.getElem?_of_mem present
    exact wellFounded.forest.value_lt id node found value named
  text := by
    intro node present number named
    obtain ⟨id, found⟩ := Array.getElem?_of_mem present
    exact wellFounded.forest.text_lt id node found number named
  body := wellFounded.body_lt
  place := fun _ _ indexed => wellFounded.consistent_scope.place_lt indexed

end Program.WellFounded

/-- Analysing a source text joins what scanning, reading and checking tell about it. -/
theorem analyse_of_check
    {source : String}
    {tags : TagTable}
    {breaches : List Diagnostic}
    (checked : (Program.ofTokens (Token.scan source).tokens).1.check = .ok (tags, breaches)) :
    analyse source =
      .ok { program := (Program.ofTokens (Token.scan source).tokens).1
            tags := tags
            diagnostics := (Token.scan source).diagnostics ++
              (Program.ofTokens (Token.scan source).tokens).2 ++ breaches } := by
  unfold analyse
  dsimp only
  rw [checked]
  rfl

/-- Analysing a source text always gives an analysis, of the well-founded program that was read. -/
theorem exists_analyse (source : String) :
    ∃ analysis, analyse source = .ok analysis ∧ analysis.program.WellFounded ∧
      ∃ breaches, analysis.program.check = .ok (analysis.tags, breaches) ∧
        breaches <:+ analysis.diagnostics := by
  have wellFounded := Program.wellFounded_ofTokens (Token.scan source).tokens
  have checked := wellFounded.check_eq
  exact ⟨_, analyse_of_check checked, wellFounded, _, checked, List.suffix_append _ _⟩

/-- Compiling a source text ends in success or in reported problems, and every number in the program
that is read leads somewhere.  More generally, a program that was built bottom-up is always checked
to the end, and if checking reports nothing then code is generated for it. -/
theorem checking_and_generating_agree :
    (∀ (source : String) (limit : Nat),
      ((∃ lines, compile source limit = .success lines) ∨
        (∃ count diagnostics, compile source limit = .failure count diagnostics)) ∧
      (Program.ofTokens (Token.scan source).tokens).1.InBounds) ∧
    (∀ program : Program, program.Built ->
      ∃ tags diagnostics, program.check = .ok (tags, diagnostics) ∧
        (diagnostics = [] -> ∃ code, program.generate tags = .ok code)) := by
  constructor
  · intro source limit
    refine ⟨?_, (Program.wellFounded_ofTokens _).inBounds⟩
    obtain ⟨analysis, analysed, wellFounded, breaches, checked, reported⟩ := exists_analyse source
    unfold compile
    rw [analysed]
    dsimp only
    split
    · next none_counted =>
      rw [Diagnostic.Log.count_reportAll] at none_counted
      have no_diagnostics : analysis.diagnostics = [] :=
        List.eq_nil_of_length_eq_zero (by omega)
      have no_breaches : breaches = [] := by
        simpa [no_diagnostics] using reported
      obtain ⟨code, generated⟩ := wellFounded.exists_generate (no_breaches ▸ checked)
      rw [generated]
      exact .inl ⟨_, rfl⟩
    · exact .inr ⟨_, _, rfl⟩
  · intro program built
    refine ⟨_, _, built.wellFounded.check_eq, ?_⟩
    intro clean
    refine built.wellFounded.exists_generate ?_
    rw [built.wellFounded.check_eq, clean]

/-- A program that writes whether one is less than two and a half. -/
def mixedComparison : Program :=
  let one := (Forest.empty.addExpr 1 (.int 1)).2
  let both := (one.addExpr 1 (.double 0x4004000000000000)).2
  let compared := (both.addExpr 1 (.binary .lt 0 1)).2
  (Program.assemble [] [0] (compared.addStmt 1 (.write 2 .plain)).2).1

/-- Checking reports nothing about the comparison, and code is generated for it. -/
theorem mixedComparison_generated :
    mixedComparison.Built ∧ ∃ tags code, mixedComparison.check = .ok (tags, []) ∧
      mixedComparison.generate tags = .ok code := by
  have built : mixedComparison.Built := by
    refine .assemble _ _ _ (.addStmt 1 _ (.addExpr 1 _ (.addExpr 1 _ (.addExpr 1 _ .empty ?_) ?_)
      ?_) ?_ ?_ rfl) ?_
    all_goals decide
  refine ⟨built, ?_⟩
  obtain ⟨tags, diagnostics, checked, generated⟩ := checking_and_generating_agree.2 _ built
  have clean : mixedComparison.check.map Prod.snd = .ok [] := by rfl
  have none_reported : diagnostics = [] := by
    rw [checked] at clean
    exact Except.ok.inj clean
  obtain ⟨code, generates⟩ := generated none_reported
  exact ⟨tags, code, none_reported ▸ checked, generates⟩

end MiniLang
