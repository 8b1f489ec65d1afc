import MiniLang.Proofs.Code.Negated
import MiniLang.Proofs.Code.Visited
import MiniLang.Proofs.Semantics.Preservation

/-!
# Inequality and negated equality

In the code of an inequality the last line tests two operands, and the code of the equality in its
place would differ in this line only.  The two tests are complements on integers, on truth values and
on numbers, and both fail on a real that is not a number.  A program may therefore have the negation
of the equality for the inequality, and its code does the same as long as no such real is tested.
-/

namespace MiniLang

theorem Value.type_of_isNaN
    {value : Value}
    (unordered : value.isNaN = true) :
    value.type = .double := by
  cases value with
  | double => rfl
  | int | bool => cases unordered

/-- Whether a line of a routine tests for inequality. -/
def Item.isInequality : Item -> Bool
  | .instr (.operate _ operation _ _) => operation.isInequality
  | _ => false

/-- Whether an expression is an inequality. -/
def ExprForm.isInequality : ExprForm -> Bool
  | .binary .ne _ _ => true
  | _ => false

/-- One test is the complement of another on values of its type, unless one of them is a real that is
not a number: then both fail. -/
structure Operation.Complements (env : Environment) (operation other : Operation) : Prop where
  number : ∀ first second : Value, first.type = operation.operandType ->
    second.type = operation.operandType -> first.isNaN = false -> second.isNaN = false ->
    ∃ truth, other.apply env first second = some (.bool truth) ∧
      operation.apply env first second = some (.bool !truth)
  notANumber : ∀ first second : Value, first.type = operation.operandType ->
    second.type = operation.operandType -> (first.isNaN = true ∨ second.isNaN = true) ->
    other.apply env first second = some (.bool false) ∧
      operation.apply env first second = some (.bool false)

namespace Lowering

/-- The test that an inequality is lowered to, and the one that an equality is lowered to. -/
theorem complements_of_operation?
    {env : Environment}
    (ordered : env.Ordered)
    {type : ValueType}
    {operation : Operation}
    (lowered : operation? .ne type = some operation) :
    operation.Complements env operation.equality where
  number := by
    intro first second firstTyped secondTyped firstNumber secondNumber
    have opposes := Operation.opposes_equality ordered (operation?_eq_of_ne lowered).1
      fun _ => ⟨firstNumber, secondNumber⟩
    rcases opposes with opposite | ⟨failed, -⟩
    · exact opposite
    · cases type <;> cases lowered <;> cases first <;> cases firstTyped <;> cases second <;>
        cases secondTyped <;> cases failed
  notANumber := by
    intro first second firstTyped secondTyped unordered
    have real : operation.operandType = .double := by
      rcases unordered with unordered | unordered
      · rw [← firstTyped, Value.type_of_isNaN unordered]
      · rw [← secondTyped, Value.type_of_isNaN unordered]
    cases first <;> cases firstTyped.trans real
    cases second <;> cases secondTyped.trans real
    cases type <;> cases lowered <;> cases real
    exact ⟨Operation.apply_eq_false_of_isNaN ordered unordered,
      Operation.apply_eq_false_of_isNaN ordered unordered⟩

/-- The lines of an inequality, of which the last one tests two operands, and those of the equality
of the same expressions, which differ in the test alone. -/
structure InequalityCode (context : Context) (forest : Forest) (id left right : ExprId)
    (inside : List Item) (target : Register) (operation : Operation) (first second : Operand) :
    Prop where
  inequality : operation.isInequality = true
  emitted : ∃ site registers labels registers' labels',
    ExprCode context (forest.expr id) registers labels
      (inside ++ [.instr (.operate target operation first second)]) (.register target) registers'
      labels' ∧
    ExprCode context
      (.binary site .eq (fun _ => forest.expr left) (fun _ => forest.expr right)) registers labels
      (inside ++ [.instr (.operate target operation.equality first second)]) (.register target)
      registers' labels'

/-- An inequality has such lines. -/
theorem ExprCode.exists_inequalityCode
    {context : Context}
    {forest : Forest}
    {id left right : ExprId}
    {site : Site}
    {code : List Item}
    {operand : Operand}
    {registers labels registers' labels' : Nat}
    (unfolded : forest.expr id =
      .binary site .ne (fun _ => forest.expr left) (fun _ => forest.expr right))
    (emitted : ExprCode context (forest.expr id) registers labels code operand registers' labels') :
    ∃ inside target type operation first second,
      code = inside ++ [.instr (.operate target operation first second)] ∧
      operation? .ne type = some operation ∧
      InequalityCode context forest id left right inside target operation first second := by
  have whole := emitted
  rw [unfolded] at emitted
  cases emitted with
  | logical _ _ logical => cases logical
  | binary _ _ plain tagged leftTagged rightTagged leftEmitted rightEmitted common leftCoerced
      rightCoerced lowered result_eq =>
      obtain ⟨inequality, equal, -⟩ := operation?_eq_of_ne lowered
      refine ⟨_, _, _, _, _, _, rfl, lowered, inequality, site, _, _, _, _, whole, ?_⟩
      exact .binary site .eq (by decide) tagged leftTagged rightTagged leftEmitted rightEmitted common
        leftCoerced rightCoerced equal ((Operation.resultType_equality _).trans result_eq)

/-- A test for inequality is what an inequality is lowered to, and no other infix operator. -/
theorem isInequality_of_operation?
    {op : BinaryOp}
    {type : ValueType}
    {operation : Operation}
    (lowered : operation? op type = some operation) :
    operation.isInequality = decide (op = .ne) := by
  cases op <;> cases type <;> cases lowered <;> rfl

/-- Bringing an operand to a type tests nothing. -/
theorem CoercionCode.countP_isInequality
    {value result : Operand}
    {type wanted : ValueType}
    {registers registers' : Nat}
    {items : List Item}
    (coerced : CoercionCode value type wanted registers items result registers') :
    items.countP Item.isInequality = 0 := by
  cases coerced <;> rfl

/-- Every inequality adds one test for inequality, and nothing else does. -/
theorem addsOne_inequality
    (context : Context) :
    AddsOne context Item.isInequality ExprForm.isInequality where
  framing := by
    intro item frames
    unfold Item.isInequality
    split
    · cases frames
    · rfl
  expr := by
    intro form own adds
    cases adds with
    | int | double | bool | name => rfl
    | assign _ _ coerced =>
        rw [List.countP_append, coerced.countP_isInequality]
        rfl
    | unary _ unaryCode =>
        cases unaryCode with
        | applied lowered => cases lowered <;> rfl
        | kept => rfl
    | @binary op _ _ _ _ _ _ _ _ _ _ _ _ _ _ _ _ _ _ _ leftCoerced rightCoerced lowered =>
        have sorted := isInequality_of_operation? lowered
        rw [List.countP_append, List.countP_append, leftCoerced.countP_isInequality,
          rightCoerced.countP_isInequality, List.countP_singleton, Item.isInequality, sorted]
        cases op <;> rfl
    | @logical op _ _ logical =>
        cases op with
        | ne => cases logical
        | _ => rfl
  stmt := by
    intro form own adds
    cases adds with
    | write print => cases print <;> rfl
    | _ => rfl

end Lowering

open Lowering

/-- In the code of a well-founded program that is accepted there are as many tests for inequality as
visits to inequalities.  Every visit to an inequality has its lines, the last of which tests two
operands, with as many tests for inequality before it as there are visits to inequalities before
this one; the lines of the equality in its place differ in the test alone.  The test is the
complement of the one for equality, unless it meets a real that is not a number; then both fail.  A
program with negated equalities in the place of inequalities, some or all of them, is accepted as
well, and its code does the same in every run in which none of the tests replaced meets a real that
is not a number. -/
theorem inequality_complements_equality
    {program : Program}
    {tags : TagTable}
    (wellFounded : program.WellFounded)
    (accepts : program.check = .ok (tags, [])) :
    ∃ code visits,
      program.generate tags = .ok code ∧
      (∀ sequence, program.forest.VisitsStmts program.body sequence ↔ sequence = visits) ∧
      code.items.countP Item.isInequality =
        visits.countP (program.visitsForm ExprForm.isInequality) ∧
      (∀ before id after left right,
        visits = before ++ .expr id :: after ->
        program.form? (.expr id) = some (.binary .ne left right) ->
        ∃ front inside back target operation first second,
          code.items =
            front ++ (inside ++ [.instr (.operate target operation first second)]) ++ back ∧
          InequalityCode (program.context tags) program.forest id left right inside target operation
            first second ∧
          (front ++ inside).countP Item.isInequality =
            before.countP (program.visitsForm ExprForm.isInequality) ∧
          ∀ env : Environment, env.Ordered -> operation.Complements env operation.equality) ∧
      ∀ program' : Program, program'.WellFounded -> program.Negates program' ->
        ∃ tags' code' marks,
          program'.check = .ok (tags', []) ∧
          program'.generate tags' = .ok code' ∧
          Rewrites marks code.items code'.items ∧
          ∀ env : Environment, env.Ordered -> code.Comparable env marks -> code.Agrees env code' := by
  obtain ⟨code, generated⟩ := wellFounded.exists_generate accepts
  obtain ⟨visits, made⟩ :=
    wellFounded.forest.exists_visitsStmts program.body wellFounded.body_lt
  have adds := addsOne_inequality (program.context tags)
  refine ⟨code, visits, generated, fun sequence => ⟨fun other => other.unique made, ?_⟩,
    Program.countP_items wellFounded.forest adds made generated, ?_, ?_⟩
  · rintro rfl
    exact made
  · intro before id after left right split formed
    obtain ⟨node, found, form_eq⟩ := Option.map_eq_some_iff.1 formed
    obtain ⟨front, stretch, back, operand, registers, labels, registers', labels', items_eq, emitted,
      even⟩ := Program.exists_stretch wellFounded.forest adds made generated split
    have unfolded := wellFounded.forest.expr_eq found
    rw [form_eq] at unfolded
    obtain ⟨inside, target, type, operation, first, second, rfl, lowered, lines⟩ :=
      ExprCode.exists_inequalityCode unfolded emitted
    have one :
        [Item.instr (.operate target operation first second)].countP Item.isInequality = 1 := by
      rw [List.countP_singleton, Item.isInequality, if_pos lines.inequality]
    have tested : program.visitsForm ExprForm.isInequality (.expr id) = true := by
      rw [Program.visitsForm, formed]
      rfl
    exact ⟨front, inside, back, target, operation, first, second, items_eq, lines,
      Program.countP_before even one tested,
      fun env ordered => complements_of_operation? ordered lowered⟩
  · intro program' wellFounded' negates
    obtain ⟨tags', accepts'⟩ := negates.exists_accepts wellFounded wellFounded' accepts
    obtain ⟨code', generated'⟩ := wellFounded'.exists_generate accepts'
    obtain ⟨texts_eq, marks, rewrites⟩ :=
      negates.exists_rewrites wellFounded wellFounded' accepts accepts' generated generated'
    exact ⟨tags', code', marks, accepts', generated', rewrites, fun env ordered comparable =>
      CodeModule.agrees_of_rewrites ordered rewrites texts_eq comparable⟩

/-- The expressions that store the quotient of two reals in a variable, and those that follow: the
variable and the integer two. -/
def quotientAndTwo (dividend divisor : UInt64) : Forest :=
  let dividend := (Forest.empty.addExpr 1 (.double dividend)).2
  let divisor := (dividend.addExpr 1 (.double divisor)).2
  let quotient := (divisor.addExpr 1 (.binary .div 0 1)).2
  let stored := (quotient.addExpr 1 (.assign ⟨"d", 1⟩ 2)).2
  let loaded := (stored.addExpr 2 (.name "d")).2
  (loaded.addExpr 2 (.int 2)).2

/-- A program that divides a real by a real and writes whether the quotient differs from two. -/
def quotientDiffers (dividend divisor : UInt64) : Program :=
  let test := ((quotientAndTwo dividend divisor).addExpr 2 (.binary .ne 4 5)).2
  let first := (test.addStmt 1 (.expr 3)).2
  (Program.assemble [⟨"d", .double, 1⟩] [0, 1] (first.addStmt 2 (.write 6 .plain)).2).1

/-- The same program with the negation of the equality in the place of the inequality. -/
def quotientNotEqual (dividend divisor : UInt64) : Program :=
  let test := ((quotientAndTwo dividend divisor).addExpr 2 (.binary .eq 4 5)).2
  let negation := (test.addExpr 2 (.unary .not 6)).2
  let first := (negation.addStmt 1 (.expr 3)).2
  (Program.assemble [⟨"d", .double, 1⟩] [0, 1] (first.addStmt 2 (.write 7 .plain)).2).1

theorem built_quotientAndTwo
    (dividend divisor : UInt64) :
    (quotientAndTwo dividend divisor).Built := by
  refine .addExpr 2 _ (.addExpr 2 _ (.addExpr 1 _ (.addExpr 1 _ (.addExpr 1 _ (.addExpr 1 _ .empty
    ?_) ?_) ?_) ?_) ?_) ?_
  all_goals exact of_decide_eq_true rfl

theorem built_quotientDiffers
    (dividend divisor : UInt64) :
    (quotientDiffers dividend divisor).Built := by
  refine .assemble _ _ _ (.addStmt 2 _ (.addStmt 1 _ (.addExpr 2 _
    (built_quotientAndTwo dividend divisor) ?_) ?_ ?_ rfl) ?_ ?_ rfl) ?_
  all_goals exact of_decide_eq_true rfl

theorem built_quotientNotEqual
    (dividend divisor : UInt64) :
    (quotientNotEqual dividend divisor).Built := by
  refine .assemble _ _ _ (.addStmt 2 _ (.addStmt 1 _ (.addExpr 2 _ (.addExpr 2 _
    (built_quotientAndTwo dividend divisor) ?_) ?_) ?_ ?_ rfl) ?_ ?_ rfl) ?_
  all_goals exact of_decide_eq_true rfl

theorem negates_quotient
    (dividend divisor : UInt64) :
    (quotientDiffers dividend divisor).Negates (quotientNotEqual dividend divisor) where
  scope_eq := rfl
  texts_eq := rfl
  tree := by
    refine .seq (.expr 1 1 (.assign _ _ rfl ?_)) (.seq (.write 2 2 .plain ?_) .done)
    · exact .binary _ _ .div (.double _ _ dividend) (.double _ _ divisor)
    · exact .negated _ _ _ rfl (.name _ _ "d") (.int _ _ 2)

/-- An environment in which reals are compared by the ordered predicates, zero divided by zero is not
a number, and three divided by two is one and a half. -/
def orderedEnvironment : Environment where
  add left _ := left
  sub left _ := left
  mul left _ := left
  div left right := if left = 0 ∧ right = 0 then 0x7FF8000000000000 else 0x3FF8000000000000
  neg bits := bits
  ofInt _ := 0x4000000000000000
  toInt _ := 2
  eq left right := Comparison.eq.ordered left right
  ne left right := Comparison.ne.ordered left right
  lt left right := Comparison.lt.ordered left right
  le left right := Comparison.le.ordered left right
  gt left right := Comparison.gt.ordered left right
  ge left right := Comparison.ge.ordered left right
  initialInt _ := 0
  initialDouble _ := 0
  initialBool _ := false
  inputInt _ _ := 0
  inputDouble _ := 0

theorem ordered_orderedEnvironment : orderedEnvironment.Ordered := by
  intro comparison left right
  cases comparison <;> rfl

/-- The table of the types in the first program. -/
def quotientDiffersTags : TagTable :=
  ⟨#[some (.value .double), some (.value .double), some (.value .double), some (.value .double),
    some (.value .double), some (.value .int), some (.value .bool)]⟩

/-- The code of the first program when it divides three by two. -/
def threeHalvesDiffers : CodeModule where
  texts := []
  items := [.label .entry,
    .instr (.alloca "d" .double),
    .instr (.operate 1 (.calculateReal .fdiv) (.double 0x4008000000000000)
      (.double 0x4000000000000000)),
    .instr (.store .double (.register 1) "d"),
    .instr (.load 2 .double "d"),
    .instr (.convert 3 .sitofp (.int 2)),
    .instr (.operate 4 (.compareReal .ne) (.register 2) (.register 3)),
    .instr (.select 5 (.register 4) .printTrue .printFalse),
    .instr (.printSelected 5),
    .instr .ret]

/-- There the test meets one and a half and two. -/
theorem comparable_threeHalvesDiffers
    (marks : List Bool) :
    threeHalvesDiffers.Comparable orderedEnvironment marks := by
  rintro machine ⟨count, ran⟩ target left right rest first second rest_eq - firstGiven secondGiven
  -- The routine runs for eight steps, and the sixth is the test.
  rcases count with _ | _ | _ | _ | _ | _ | _ | _ | _ | count <;> cases ran <;> cases rest_eq
  cases firstGiven
  cases secondGiven
  exact ⟨by decide, by decide⟩

/-- The inequality of three halves and two is found in the code with its test, and the code with the
negated equality does the same: it writes that they differ. -/
theorem three_halves_differ_from_two :
    (quotientDiffers 0x4008000000000000 0x4000000000000000).WellFounded ∧
      (quotientNotEqual 0x4008000000000000 0x4000000000000000).WellFounded ∧
      (quotientDiffers 0x4008000000000000 0x4000000000000000).check =
        .ok (quotientDiffersTags, []) ∧
      (quotientDiffers 0x4008000000000000 0x4000000000000000).generate quotientDiffersTags =
        .ok threeHalvesDiffers ∧
      ∃ tags' code',
        (∃ front inside back target operation first second,
          threeHalvesDiffers.items =
            front ++ (inside ++ [.instr (.operate target operation first second)]) ++ back ∧
          operation.isInequality = true ∧
          operation.Complements orderedEnvironment operation.equality) ∧
        (quotientNotEqual 0x4008000000000000 0x4000000000000000).check = .ok (tags', []) ∧
        (quotientNotEqual 0x4008000000000000 0x4000000000000000).generate tags' = .ok code' ∧
        threeHalvesDiffers.Agrees orderedEnvironment code' ∧
        ∃ store, code'.Ends orderedEnvironment ⟨store, [.write .plain (.bool true)]⟩ := by
  have wellFounded := (built_quotientDiffers 0x4008000000000000 0x4000000000000000).wellFounded
  have wellFounded' := (built_quotientNotEqual 0x4008000000000000 0x4000000000000000).wellFounded
  have accepts : (quotientDiffers 0x4008000000000000 0x4000000000000000).check =
      .ok (quotientDiffersTags, []) := rfl
  have listed : (quotientDiffers 0x4008000000000000 0x4000000000000000).generate
      quotientDiffersTags = .ok threeHalvesDiffers := by decide +kernel
  obtain ⟨code, visits, generated, visits_iff, -, located, replaced⟩ :=
    inequality_complements_equality wellFounded accepts
  cases listed.symm.trans generated
  have made := (visits_iff visits).2 rfl
  have visited : .expr 6 ∈ visits :=
    made.value_mem (made.mem (by decide : 1 ∈ [0, 1])) rfl (by decide)
  obtain ⟨before, after, split⟩ := List.append_of_mem visited
  obtain ⟨front, inside, back, target, operation, first, second, items_eq, lines, -, complements⟩ :=
    located before 6 after 4 5 split rfl
  obtain ⟨tags', code', marks, accepts', generated', -, agrees⟩ :=
    replaced _ wellFounded' (negates_quotient _ _)
  have same := agrees orderedEnvironment ordered_orderedEnvironment
    (comparable_threeHalvesDiffers marks)
  have ends : threeHalvesDiffers.Ends orderedEnvironment ⟨_, [.write .plain (.bool true)]⟩ :=
    ⟨_, ⟨8, rfl⟩, rfl, rfl⟩
  exact ⟨wellFounded, wellFounded', accepts, listed, tags', code',
    ⟨front, inside, back, target, operation, first, second, items_eq, lines.inequality,
      complements orderedEnvironment ordered_orderedEnvironment⟩,
    accepts', generated', same, _, (same.ends _).mp ends⟩

/-- Zero divided by zero does not differ from two, and is not equal to two either. -/
theorem quotient_neither_differs_nor_equals :
    orderedEnvironment.Ordered ∧
      ∃ tags code tags' code',
        (quotientDiffers 0 0).check = .ok (tags, []) ∧
        (quotientDiffers 0 0).generate tags = .ok code ∧
        (quotientDiffers 0 0).Negates (quotientNotEqual 0 0) ∧
        (quotientNotEqual 0 0).check = .ok (tags', []) ∧
        (quotientNotEqual 0 0).generate tags' = .ok code' ∧
        (∃ store, code.Ends orderedEnvironment ⟨store, [.write .plain (.bool false)]⟩) ∧
        ∃ store, code'.Ends orderedEnvironment ⟨store, [.write .plain (.bool true)]⟩ := by
  have wellFounded := (built_quotientDiffers 0 0).wellFounded
  have wellFounded' := (built_quotientNotEqual 0 0).wellFounded
  obtain ⟨tags, accepts⟩ : ∃ tags, (quotientDiffers 0 0).check = .ok (tags, []) := ⟨_, rfl⟩
  obtain ⟨tags', accepts'⟩ : ∃ tags, (quotientNotEqual 0 0).check = .ok (tags, []) := ⟨_, rfl⟩
  obtain ⟨code, generated⟩ := wellFounded.exists_generate accepts
  obtain ⟨code', generated'⟩ := wellFounded'.exists_generate accepts'
  have ends : (quotientDiffers 0 0).Ends orderedEnvironment
      ⟨_, [.write .plain (.bool false)]⟩ := ⟨2, .inl rfl⟩
  have ends' : (quotientNotEqual 0 0).Ends orderedEnvironment
      ⟨_, [.write .plain (.bool true)]⟩ := ⟨2, .inl rfl⟩
  exact ⟨ordered_orderedEnvironment, tags, code, tags', code', accepts, generated,
    negates_quotient 0 0, accepts', generated',
    ⟨_, ends.code_ends (wellFounded.advances accepts generated)⟩,
    ⟨_, ends'.code_ends (wellFounded'.advances accepts' generated')⟩⟩

end MiniLang
