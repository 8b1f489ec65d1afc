import MiniLang.Proofs.Code.Agreement
import MiniLang.Proofs.Code.LineWords
import MiniLang.Proofs.Code.Visited

/-!
# Promotions

An integer is made a real where it stands beside a real, where it is assigned to a variable of reals,
and where it is cast.  The generator decides each of these by itself.  Here the promotions in the code
are counted against the nodes that need one, and each operator on an integer and a real is found in
the code with the line that promotes its operand right before its own.
-/

namespace MiniLang

/-- Whether a line of a routine makes a real of an integer. -/
def Item.isPromotion : Item -> Bool
  | .instr (.convert _ .sitofp _) => true
  | _ => false

/-- A line that only frames the code of nodes promotes nothing. -/
theorem Item.isPromotion_eq_false
    (item : Item)
    (frames : item.frames = true) :
    item.isPromotion = false := by
  unfold Item.isPromotion
  split
  · cases frames
  · rfl

/-- Whether the words of a line define a register by making a real of an integer. -/
def CodeText.isPromotion (line : String) : Bool :=
  (instruction? line).any fun spelling =>
    spelling[1]? = some ['='] && spelling[2]? = some "sitofp".toList

/-- Whether an operation works on reals. -/
def Operation.isReal : Operation -> Bool
  | .calculateReal _ => true
  | .compareReal _ => true
  | _ => false

namespace ExprForm

/-- Whether an expression is an infix operator, other than a logical one, on an integer and a
real. -/
def isMixed (tags : TagTable) : ExprForm -> Bool
  | .binary op left right =>
      op.family ≠ .logical &&
        ((tags.get? left = some (.value .int) && tags.get? right = some (.value .double)) ||
          (tags.get? left = some (.value .double) && tags.get? right = some (.value .int)))
  | _ => false

/-- Whether an expression assigns an integer to a variable of reals. -/
def isWideningAssignment (scope : Scope) (tags : TagTable) : ExprForm -> Bool
  | .assign target value =>
      (scope.lookup target.name).any (fun declaration => declaration.type = .double) &&
        tags.get? value = some (.value .int)
  | _ => false

/-- Whether an expression casts an integer to a real. -/
def isWideningCast (tags : TagTable) : ExprForm -> Bool
  | .unary .toDouble operand => tags.get? operand = some (.value .int)
  | _ => false

/-- Whether an expression needs a promotion. -/
def needsPromotion (scope : Scope) (tags : TagTable) (form : ExprForm) : Bool :=
  form.isMixed tags || form.isWideningAssignment scope tags || form.isWideningCast tags

end ExprForm

namespace Program

variable (program : Program) (tags : TagTable)

/-- The three kinds of expressions that need a promotion exclude each other. -/
theorem countP_needsPromotion
    (visits : List Visit) :
    visits.countP (program.visitsForm (ExprForm.needsPromotion program.scope tags)) =
      visits.countP (program.visitsForm (ExprForm.isMixed tags)) +
        visits.countP (program.visitsForm (ExprForm.isWideningAssignment program.scope tags)) +
        visits.countP (program.visitsForm (ExprForm.isWideningCast tags)) := by
  have unit (truth : Bool) : (if truth = true then 1 else 0) = truth.toNat := by
    cases truth <;> rfl
  have once (visit : Visit) :
      (program.visitsForm (ExprForm.needsPromotion program.scope tags) visit).toNat =
        (program.visitsForm (ExprForm.isMixed tags) visit).toNat +
          (program.visitsForm (ExprForm.isWideningAssignment program.scope tags) visit).toNat +
          (program.visitsForm (ExprForm.isWideningCast tags) visit).toNat := by
    unfold visitsForm
    cases program.form? visit with
    | none => rfl
    | some form =>
        cases form <;> simp [ExprForm.needsPromotion, ExprForm.isMixed,
          ExprForm.isWideningAssignment, ExprForm.isWideningCast]
  induction visits with
  | nil => rfl
  | cons visit visits inductionHypothesis =>
      simp only [List.countP_cons, unit, inductionHypothesis, once]
      omega

end Program

namespace Lowering

/-- The operation on reals of an infix operator. -/
theorem isReal_of_operation?
    {op : BinaryOp}
    {operation : Operation}
    (lowered : operation? op .double = some operation) :
    operation.isReal = true := by
  cases op <;> cases lowered <;> rfl

section Own

variable {context : Context} {items : List Item}

/-- Bringing an operand to a type promotes it if it is an integer and a real is wanted. -/
theorem CoercionCode.countP_isPromotion
    {value result : Operand}
    {type wanted : ValueType}
    {registers registers' : Nat}
    (coerced : CoercionCode value type wanted registers items result registers') :
    items.countP Item.isPromotion = (decide (type = .int ∧ wanted = .double)).toNat := by
  cases coerced with
  | promoted => rfl
  | kept _ fits =>
      rw [decide_eq_false fits]
      rfl

/-- A prefix operator promotes its operand if it casts an integer to a real. -/
theorem UnaryCode.countP_isPromotion
    {op : UnaryOp}
    {type : ValueType}
    {value result : Operand}
    {registers registers' : Nat}
    (applied : UnaryCode op type value registers items result registers') :
    items.countP Item.isPromotion = (decide (op = .toDouble ∧ type = .int)).toNat := by
  cases applied with
  | applied lowered => cases lowered <;> rfl
  | kept identity => cases identity <;> rfl

/-- The lines that an expression adds hold one promotion if it needs one, and none otherwise. -/
theorem ExprOwn.countP_isPromotion
    {form : ExprForm}
    (own : ExprOwn context form items) :
    items.countP Item.isPromotion =
      (form.needsPromotion context.scope context.tags).toNat := by
  cases own with
  | int | double | bool | name => rfl
  | assign valueTagged found coerced =>
      rw [List.countP_append, coerced.countP_isPromotion]
      simp [ExprForm.needsPromotion, ExprForm.isMixed, ExprForm.isWideningAssignment,
        ExprForm.isWideningCast, valueTagged, found, Item.isPromotion, Bool.and_comm]
  | @unary op _ _ _ _ _ _ _ operandTagged unaryCode =>
      rw [unaryCode.countP_isPromotion]
      cases op <;> simp [ExprForm.needsPromotion, ExprForm.isMixed, ExprForm.isWideningAssignment,
        ExprForm.isWideningCast, operandTagged]
  | @binary _ _ _ leftType rightType _ _ _ _ _ _ _ _ _ _ _ plain leftTagged rightTagged common
      leftCoerced rightCoerced =>
      rw [List.countP_append, List.countP_append, leftCoerced.countP_isPromotion,
        rightCoerced.countP_isPromotion]
      cases leftType <;> cases rightType <;> cases common <;>
        simp [ExprForm.needsPromotion, ExprForm.isMixed, ExprForm.isWideningAssignment,
          ExprForm.isWideningCast, leftTagged, rightTagged, plain, Item.isPromotion]
  | logical left right logical =>
      simp [ExprForm.needsPromotion, ExprForm.isMixed, ExprForm.isWideningAssignment,
        ExprForm.isWideningCast, logical]

/-- No statement adds a promotion of its own. -/
theorem StmtOwn.countP_isPromotion
    {form : StmtForm}
    (own : StmtOwn context form items) :
    items.countP Item.isPromotion = 0 := by
  cases own with
  | write print => cases print <;> rfl
  | _ => rfl

end Own

/-- The expressions that need a promotion add one each, and nothing else promotes. -/
theorem addsOne_promotion
    (context : Context) :
    AddsOne context Item.isPromotion (ExprForm.needsPromotion context.scope context.tags) where
  framing := Item.isPromotion_eq_false
  expr _ _ := ExprOwn.countP_isPromotion
  stmt _ _ := StmtOwn.countP_isPromotion

/-- The lines of an infix operator on an integer and a real: those of its two operands, and its own,
which promote the integer and apply the operator with the promoted value on the side of the integer
and the value of the other operand on the other side. -/
inductive MixedCode (context : Context) (forest : Forest) (op : BinaryOp) (left right : ExprId) :
    List Item -> List Item -> Prop where
  | left {leftCode rightCode : List Item} {leftValue rightValue : Operand} {operation : Operation}
      {registers labels registers₁ labels₁ registers₂ labels₂ : Nat}
      (leftTagged : context.tags.get? left = some (.value .int))
      (rightTagged : context.tags.get? right = some (.value .double))
      (leftEmitted : ExprCode context (forest.expr left) registers labels leftCode leftValue
        registers₁ labels₁)
      (rightEmitted : ExprCode context (forest.expr right) registers₁ labels₁ rightCode rightValue
        registers₂ labels₂)
      (lowered : operation? op .double = some operation)
      (real : operation.isReal = true) :
      MixedCode context forest op left right (leftCode ++ rightCode)
        [.instr (.convert (registers₂ + 1) .sitofp leftValue),
          .instr (.operate (registers₂ + 2) operation (.register (registers₂ + 1)) rightValue)]
  | right {leftCode rightCode : List Item} {leftValue rightValue : Operand} {operation : Operation}
      {registers labels registers₁ labels₁ registers₂ labels₂ : Nat}
      (leftTagged : context.tags.get? left = some (.value .double))
      (rightTagged : context.tags.get? right = some (.value .int))
      (leftEmitted : ExprCode context (forest.expr left) registers labels leftCode leftValue
        registers₁ labels₁)
      (rightEmitted : ExprCode context (forest.expr right) registers₁ labels₁ rightCode rightValue
        registers₂ labels₂)
      (lowered : operation? op .double = some operation)
      (real : operation.isReal = true) :
      MixedCode context forest op left right (leftCode ++ rightCode)
        [.instr (.convert (registers₂ + 1) .sitofp rightValue),
          .instr (.operate (registers₂ + 2) operation leftValue (.register (registers₂ + 1)))]

/-- The own lines of an infix operator on an integer and a real promote once. -/
theorem MixedCode.countP_isPromotion
    {context : Context}
    {forest : Forest}
    {op : BinaryOp}
    {left right : ExprId}
    {inside own : List Item}
    (mixed : MixedCode context forest op left right inside own) :
    own.countP Item.isPromotion = 1 := by
  cases mixed <;> rfl

/-- An infix operator on an integer and a real has such lines. -/
theorem ExprCode.exists_mixedCode
    {context : Context}
    {forest : Forest}
    {site : Site}
    {op : BinaryOp}
    {left right : ExprId}
    {code : List Item}
    {operand : Operand}
    {registers labels registers' labels' : Nat}
    (emitted : ExprCode context
      (.binary site op (fun _ => forest.expr left) (fun _ => forest.expr right)) registers labels
      code operand registers' labels')
    (mixed : (ExprForm.binary op left right).isMixed context.tags = true) :
    ∃ inside own, code = inside ++ own ∧ MixedCode context forest op left right inside own := by
  simp only [ExprForm.isMixed, Bool.and_eq_true, Bool.or_eq_true, decide_eq_true_eq] at mixed
  obtain ⟨plain, sides⟩ := mixed
  cases emitted with
  | logical _ _ logical => exact absurd logical plain
  | binary _ _ _ _ leftTagged rightTagged leftEmitted rightEmitted common leftCoerced rightCoerced
      lowered =>
      have leftTag := Context.get?_of_typeOf? leftTagged
      have rightTag := Context.get?_of_typeOf? rightTagged
      rcases sides with ⟨leftInt, rightDouble⟩ | ⟨leftDouble, rightInt⟩
      · cases leftTag.symm.trans leftInt
        cases rightTag.symm.trans rightDouble
        cases common
        cases leftCoerced with
        | kept _ fits => exact absurd ⟨rfl, rfl⟩ fits
        | promoted =>
            cases rightCoerced with
            | kept =>
                refine ⟨_, _, ?_, .left leftTag rightTag leftEmitted rightEmitted lowered
                  (isReal_of_operation? lowered)⟩
                simp
      · cases leftTag.symm.trans leftDouble
        cases rightTag.symm.trans rightInt
        cases common
        cases leftCoerced with
        | kept =>
            cases rightCoerced with
            | kept _ fits => exact absurd ⟨rfl, rfl⟩ fits
            | promoted =>
                refine ⟨_, _, ?_, .right leftTag rightTag leftEmitted rightEmitted lowered
                  (isReal_of_operation? lowered)⟩
                simp

end Lowering

open CodeText

theorem CodeText.head?_words_operation
    (operation : Operation) :
    (words operation.text.toList).head? ≠ some "sitofp".toList := by
  cases operation with
  | calculate calculation type => cases calculation <;> cases type <;> decide
  | calculateReal calculation => cases calculation <;> decide
  | compare comparison type => cases comparison <;> cases type <;> decide
  | compareReal comparison => cases comparison <;> decide

/-- The promotions are told by the words of their lines. -/
theorem CodeText.isPromotion_line
    (item : Item)
    (solid : ∀ name, item.slotName? = some name -> Solid name.toList) :
    CodeText.isPromotion item.line = item.isPromotion := by
  cases item with
  | label opened =>
      rw [CodeText.isPromotion, instruction?_label]
      rfl
  | instr instr =>
      rw [CodeText.isPromotion, instruction?_line, Option.any_some, words_text instr solid]
      cases instr with
      | store type => cases type <;> rfl
      | operate target operation left right =>
          have other := head?_words_operation operation
          cases spelled : words operation.text.toList with
          | nil => exact absurd spelled (List.splitOnP_ne_nil _ _)
          | cons first rest =>
              rw [spelled, List.head?_cons] at other
              have third : (wordsOf (.operate target operation left right))[2]? = some first := by
                rw [wordsOf, spelled]
                rfl
              rw [third, decide_eq_false other, Bool.and_false]
              rfl
      | convert _ conversion => cases conversion <;> rfl
      | _ => rfl

/-- The lines of a module promote as often as its items do. -/
theorem CodeModule.countP_lines_isPromotion
    (code : CodeModule)
    (solid : ∀ item ∈ code.items, ∀ name, item.slotName? = some name -> Solid name.toList) :
    code.lines.countP CodeText.isPromotion = code.items.countP Item.isPromotion := by
  obtain ⟨front, back, lines_eq, outside⟩ := code.exists_lines_eq
  rw [List.forall_mem_append] at outside
  have silent {lines : List String} (others : ∀ line ∈ lines, instruction? line = none) :
      lines.countP CodeText.isPromotion = 0 := by
    refine List.countP_eq_zero.2 fun line listed => ?_
    rw [CodeText.isPromotion, others line listed]
    exact Bool.false_ne_true
  rw [lines_eq, List.countP_append, List.countP_append, silent outside.1, silent outside.2,
    List.countP_map, Nat.zero_add, Nat.add_zero]
  refine List.countP_congr fun item listed => ?_
  rw [Function.comp_apply, isPromotion_line item (solid item listed)]

open Lowering

/-- A well-founded program that is accepted promotes exactly where it has to.  In its code there are
as many promotions as visits to infix operators, other than the logical ones, on an integer and a
real, to assignments of an integer to a variable of reals and to casts of an integer to a real, and
they are so many lines of the text as well.  For each of these infix operators the code has the lines
of its operands followed by its own, which promote the integer and apply an operation on reals to the
promoted value, on the side of the integer, and the value of the other operand; before them there are
as many promotions as the visits before the operator need. -/
theorem promotes_exactly_where_needed
    {program : Program}
    {tags : TagTable}
    (wellFounded : program.WellFounded)
    (accepts : program.check = .ok (tags, [])) :
    ∃ code visits,
      program.generate tags = .ok code ∧
      (∀ sequence, program.forest.VisitsStmts program.body sequence ↔ sequence = visits) ∧
      code.items.countP Item.isPromotion =
        visits.countP (program.visitsForm (ExprForm.isMixed tags)) +
          visits.countP (program.visitsForm (ExprForm.isWideningAssignment program.scope tags)) +
          visits.countP (program.visitsForm (ExprForm.isWideningCast tags)) ∧
      ((∀ item ∈ code.items, ∀ name, item.slotName? = some name -> Solid name.toList) ->
        code.lines.countP CodeText.isPromotion = code.items.countP Item.isPromotion) ∧
      ∀ before id after op left right,
        visits = before ++ .expr id :: after ->
        program.form? (.expr id) = some (.binary op left right) ->
        (ExprForm.binary op left right).isMixed tags = true ->
        ∃ front inside own back,
          code.items = front ++ inside ++ own ++ back ∧
          MixedCode (program.context tags) program.forest op left right inside own ∧
          (front ++ inside).countP Item.isPromotion =
            before.countP (program.visitsForm (ExprForm.needsPromotion program.scope tags)) := by
  obtain ⟨code, generated⟩ := wellFounded.exists_generate accepts
  obtain ⟨visits, made⟩ :=
    wellFounded.forest.exists_visitsStmts program.body wellFounded.body_lt
  have adds := addsOne_promotion (program.context tags)
  refine ⟨code, visits, generated, fun sequence => ⟨fun other => other.unique made, ?_⟩, ?_,
    code.countP_lines_isPromotion, ?_⟩
  · rintro rfl
    exact made
  · rw [Program.countP_items wellFounded.forest adds made generated]
    exact program.countP_needsPromotion tags visits
  · intro before id after op left right split formed mixed
    obtain ⟨node, found, form_eq⟩ := Option.map_eq_some_iff.1 formed
    obtain ⟨front, stretch, back, operand, registers, labels, registers', labels', items_eq, emitted,
      even⟩ := Program.exists_stretch wellFounded.forest adds made generated split
    have unfolded := wellFounded.forest.expr_eq found
    rw [form_eq] at unfolded
    rw [unfolded] at emitted
    obtain ⟨inside, own, rfl, lines⟩ := emitted.exists_mixedCode mixed
    have needs :
        program.visitsForm (ExprForm.needsPromotion program.scope tags) (.expr id) = true := by
      rw [Program.visitsForm, formed, Option.any_some, ExprForm.needsPromotion, mixed]
      rfl
    refine ⟨front, inside, own, back, ?_, lines,
      Program.countP_before even lines.countP_isPromotion needs⟩
    rw [items_eq, ← List.append_assoc]

/-- A program that assigns an integer to a variable of reals, and to the same variable the sum of the
integer and a product of reals, one of them cast. -/
def widenings : Program :=
  let int := (Forest.empty.addExpr 1 (.name "i")).2
  let stored := (int.addExpr 1 (.assign ⟨"d", 1⟩ 0)).2
  let summand := (stored.addExpr 2 (.name "i")).2
  let factor := (summand.addExpr 2 (.name "d")).2
  let seven := (factor.addExpr 2 (.int 7)).2
  let cast := (seven.addExpr 2 (.unary .toDouble 4)).2
  let product := (cast.addExpr 2 (.binary .mul 3 5)).2
  let sum := (product.addExpr 2 (.binary .add 2 6)).2
  let again := (sum.addExpr 2 (.assign ⟨"d", 2⟩ 7)).2
  let first := (again.addStmt 1 (.expr 1)).2
  (Program.assemble [⟨"i", .int, 1⟩, ⟨"d", .double, 1⟩] [0, 1] (first.addStmt 2 (.expr 8)).2).1

/-- The table of the types in that program. -/
def wideningsTags : TagTable :=
  ⟨#[some (.value .int), some (.value .double), some (.value .int), some (.value .double),
    some (.value .int), some (.value .double), some (.value .double), some (.value .double),
    some (.value .double)]⟩

/-- There the assignment, the sum and the cast promote, and the product and the second assignment do
not; the promotion of the sum comes after the other two. -/
theorem widenings_promote_three_times :
    widenings.WellFounded ∧ widenings.check = .ok (wideningsTags, []) ∧
      ∃ code, widenings.generate wideningsTags = .ok code ∧
        code.items.countP Item.isPromotion = 3 ∧
        ∃ front inside own back, code.items = front ++ inside ++ own ++ back ∧
          MixedCode (widenings.context wideningsTags) widenings.forest .add 2 6 inside own ∧
          (front ++ inside).countP Item.isPromotion = 2 := by
  have built : widenings.Built := by
    refine .assemble _ _ _ (.addStmt 2 _ (.addStmt 1 _ (.addExpr 2 _ (.addExpr 2 _ (.addExpr 2 _
      (.addExpr 2 _ (.addExpr 2 _ (.addExpr 2 _ (.addExpr 2 _ (.addExpr 1 _ (.addExpr 1 _ .empty ?_)
      ?_) ?_) ?_) ?_) ?_) ?_) ?_) ?_) ?_ ?_ rfl) ?_ ?_ rfl) ?_
    all_goals decide
  have checked : widenings.check = .ok (wideningsTags, []) := rfl
  have int : widenings.forest.VisitsExprs [0] ([] ++ .expr 0 :: []) := .cons rfl .nil .nil
  have stored : widenings.forest.VisitsExprs [1] ([.expr 0] ++ .expr 1 :: []) := .cons rfl int .nil
  have seven : widenings.forest.VisitsExprs [4] ([] ++ .expr 4 :: []) := .cons rfl .nil .nil
  have cast : widenings.forest.VisitsExprs [5] ([.expr 4] ++ .expr 5 :: []) := .cons rfl seven .nil
  have factors : widenings.forest.VisitsExprs [3, 5] ([] ++ .expr 3 :: [.expr 4, .expr 5]) :=
    .cons rfl .nil cast
  have product : widenings.forest.VisitsExprs [6] ([.expr 3, .expr 4, .expr 5] ++ .expr 6 :: []) :=
    .cons rfl factors .nil
  have summands : widenings.forest.VisitsExprs [2, 6]
      ([] ++ .expr 2 :: [.expr 3, .expr 4, .expr 5, .expr 6]) := .cons rfl .nil product
  have sum : widenings.forest.VisitsExprs [7]
      ([.expr 2, .expr 3, .expr 4, .expr 5, .expr 6] ++ .expr 7 :: []) := .cons rfl summands .nil
  have again : widenings.forest.VisitsExprs [8]
      ([.expr 2, .expr 3, .expr 4, .expr 5, .expr 6, .expr 7] ++ .expr 8 :: []) :=
    .cons rfl sum .nil
  have second : widenings.forest.VisitsStmts [1] ([.expr 2, .expr 3, .expr 4, .expr 5, .expr 6,
      .expr 7, .expr 8] ++ .stmt 1 :: ([] ++ [])) := .cons rfl again .nil .nil
  have made : widenings.forest.VisitsStmts [0, 1]
      ([.expr 0, .expr 1] ++ .stmt 0 :: ([] ++ [.expr 2, .expr 3, .expr 4, .expr 5, .expr 6,
        .expr 7, .expr 8, .stmt 1])) := .cons rfl stored .nil second
  obtain ⟨code, visits, generated, visits_iff, count_eq, -, mixed⟩ :=
    promotes_exactly_where_needed built.wellFounded checked
  obtain rfl := (visits_iff _).1 made
  exact ⟨built.wellFounded, checked, code, generated, count_eq,
    mixed [.expr 0, .expr 1, .stmt 0, .expr 2, .expr 3, .expr 4, .expr 5, .expr 6] 7 _ _ _ _ rfl rfl
      rfl⟩

end MiniLang
