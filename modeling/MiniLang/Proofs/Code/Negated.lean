import MiniLang.Proofs.Code.Agreement
import MiniLang.Proofs.Code.Determinism
import MiniLang.Proofs.Semantics.Rewriting

/-!
# Programs with inequalities negated

In the place of an inequality a program may have the negation of an equality.  Such a program is
typed as the first one is, and its code is that of the first one with the tests for inequality
replaced.  The code of the one is carried over to code for the other, rule by rule; as the rules
leave no choice, this is the code that is generated.
-/

namespace MiniLang

/-! ## The relation -/

/-- An expression in which inequalities are replaced by negated equalities, some of them or none.
Sites may be others. -/
inductive Expr.Negates : Expr -> Expr -> Prop where
  | int (site site' : Site) (value : Int32) : Negates (.int site value) (.int site' value)
  | double (site site' : Site) (bits : UInt64) : Negates (.double site bits) (.double site' bits)
  | bool (site site' : Site) (value : Bool) : Negates (.bool site value) (.bool site' value)
  | name (site site' : Site) (spelling : String) :
      Negates (.name site spelling) (.name site' spelling)
  | assign (site site' : Site) {target target' : Target} {value value' : Unit -> Expr}
      (name_eq : target'.name = target.name)
      (valueNegates : Negates (value ()) (value' ())) :
      Negates (.assign site target value) (.assign site' target' value')
  | unary (site site' : Site) (op : UnaryOp) {operand operand' : Unit -> Expr}
      (operandNegates : Negates (operand ()) (operand' ())) :
      Negates (.unary site op operand) (.unary site' op operand')
  | binary (site site' : Site) (op : BinaryOp) {left left' right right' : Unit -> Expr}
      (leftNegates : Negates (left ()) (left' ()))
      (rightNegates : Negates (right ()) (right' ())) :
      Negates (.binary site op left right) (.binary site' op left' right')
  | negated (site site₁ site₂ : Site) {left left' right right' inner : Unit -> Expr}
      (inner_eq : inner () = .binary site₂ .eq left' right')
      (leftNegates : Negates (left ()) (left' ()))
      (rightNegates : Negates (right ()) (right' ())) :
      Negates (.binary site .ne left right) (.unary site₁ .not inner)

/-- A statement in which inequalities are replaced by negated equalities, some of them or none.
Lines may be others. -/
inductive Stmt.Negates : Stmt -> Stmt -> Prop where
  | done : Negates .done .done
  | seq {first first' rest rest' : Stmt}
      (firstNegates : Negates first first')
      (restNegates : Negates rest rest') :
      Negates (.seq first rest) (.seq first' rest')
  | block (line line' : Line) {body body' : Unit -> Stmt}
      (bodyNegates : Negates (body ()) (body' ())) :
      Negates (.block line body) (.block line' body')
  | expr (line line' : Line) {value value' : Expr}
      (valueNegates : value.Negates value') :
      Negates (.expr line value) (.expr line' value')
  | branch (line line' : Line) {condition condition' : Expr} {yes yes' no no' : Unit -> Stmt}
      (conditionNegates : condition.Negates condition')
      (yesNegates : Negates (yes ()) (yes' ()))
      (noNegates : Negates (no ()) (no' ())) :
      Negates (.branch line condition yes no) (.branch line' condition' yes' no')
  | loop (line line' : Line) {condition condition' : Expr} {body body' : Unit -> Stmt}
      (conditionNegates : condition.Negates condition')
      (bodyNegates : Negates (body ()) (body' ())) :
      Negates (.loop line condition body) (.loop line' condition' body')
  | write (line line' : Line) {value value' : Expr} (format : Format)
      (valueNegates : value.Negates value') :
      Negates (.write line value format) (.write line' value' format)
  | writeText (line line' : Line) (number : Nat) :
      Negates (.writeText line number) (.writeText line' number)
  | read (line line' : Line) {target target' : Target} (format : Format)
      (name_eq : target'.name = target.name) :
      Negates (.read line target format) (.read line' target' format)
  | leave (line line' : Line) : Negates (.leave line) (.leave line')

/-! ## Types -/

/-- An equality combines what an inequality does. -/
theorem BinaryOp.Combines.eq_of_ne
    {left right result : ValueType}
    (combines : BinaryOp.ne.Combines left right result) :
    BinaryOp.eq.Combines left right result ∧ result = .bool := by
  cases combines with
  | equalityOfBools => exact ⟨.equalityOfBools rfl, rfl⟩
  | equalityOfNumbers _ leftNumeric rightNumeric =>
      exact ⟨.equalityOfNumbers rfl leftNumeric rightNumeric, rfl⟩
  | logical family | relational family | arithmeticOfInts family | arithmeticOfReals family
  | bitwise family => cases family

/-- Expressions keep their types. -/
theorem Expr.Negates.hasType
    {scope : Scope}
    {expression expression' : Expr}
    {type : ValueType}
    (negates : expression.Negates expression')
    (typed : expression.HasType scope type) :
    expression'.HasType scope type := by
  induction negates generalizing type with
  | int | double | bool =>
      cases typed
      constructor
  | name site site' =>
      cases typed with
      | name _ found => exact .name site' found
  | assign site site' name_eq _ inductionHypothesis =>
      cases typed with
      | assign _ valueTyped found takes =>
          exact .assign site' (inductionHypothesis valueTyped) (name_eq ▸ found) takes
  | unary site site' op _ inductionHypothesis =>
      cases typed with
      | unary _ operandTyped turns => exact .unary site' (inductionHypothesis operandTyped) turns
  | binary site site' op _ _ leftHypothesis rightHypothesis =>
      cases typed with
      | binary _ leftTyped rightTyped combines =>
          exact .binary site' (leftHypothesis leftTyped) (rightHypothesis rightTyped) combines
  | negated site site₁ site₂ inner_eq _ _ leftHypothesis rightHypothesis =>
      cases typed with
      | binary _ leftTyped rightTyped combines =>
          obtain ⟨combines, rfl⟩ := combines.eq_of_ne
          refine .unary site₁ ?_ .not
          rw [inner_eq]
          exact .binary site₂ (leftHypothesis leftTyped) (rightHypothesis rightTyped) combines

/-- Statements stay well typed. -/
theorem Stmt.Negates.wellTyped
    {scope : Scope}
    {statement statement' : Stmt}
    (negates : statement.Negates statement')
    (typed : statement.WellTyped scope) :
    statement'.WellTyped scope := by
  induction negates with
  | done => exact .done
  | seq _ _ firstHypothesis restHypothesis =>
      cases typed with
      | seq firstTyped restTyped =>
          exact .seq (firstHypothesis firstTyped) (restHypothesis restTyped)
  | block line line' _ bodyHypothesis =>
      cases typed with
      | block _ bodyTyped => exact .block line' (bodyHypothesis bodyTyped)
  | expr line line' valueNegates =>
      cases typed with
      | expr _ valueTyped => exact .expr line' (valueNegates.hasType valueTyped)
  | branch line line' conditionNegates _ _ yesHypothesis noHypothesis =>
      cases typed with
      | branch _ conditionTyped yesTyped noTyped =>
          exact .branch line' (conditionNegates.hasType conditionTyped) (yesHypothesis yesTyped)
            (noHypothesis noTyped)
  | loop line line' conditionNegates _ bodyHypothesis =>
      cases typed with
      | loop _ conditionTyped bodyTyped =>
          exact .loop line' (conditionNegates.hasType conditionTyped) (bodyHypothesis bodyTyped)
  | write line line' format valueNegates =>
      cases typed with
      | write _ valueTyped writes => exact .write line' (valueNegates.hasType valueTyped) writes
  | writeText line line' number => exact .writeText line' number
  | read line line' format name_eq =>
      cases typed with
      | read _ found reads => exact .read line' (name_eq ▸ found) reads
  | leave line line' => exact .leave line'

/-! ## Marks -/

section Marks

variable {marked : List Bool} {registers registers' : Nat}

/-- Marks go on so that the next registers are shifted alike. -/
theorem exists_unmarked
    (length_eq : marked.length = registers)
    (later : registers ≤ registers') :
    ∃ longer : List Bool, marked <+: longer ∧ longer.length = registers' ∧
      ∀ marks, longer <+: marks ->
        shifted marks registers' = shifted marks registers + (registers' - registers) := by
  refine ⟨marked ++ List.replicate (registers' - registers) false, List.prefix_append _ _, ?_, ?_⟩
  · rw [List.length_append, List.length_replicate]
    omega
  · rintro _ ⟨after, rfl⟩
    have whole := shifted_length (marked ++ List.replicate (registers' - registers) false) after
    have front := shifted_length marked (List.replicate (registers' - registers) false ++ after)
    rw [List.length_append, List.length_replicate, List.count_append, List.count_replicate,
      if_neg (by decide), length_eq, Nat.add_sub_cancel' later] at whole
    rw [length_eq] at front
    rw [whole, List.append_assoc, front]
    omega

/-- Marks go on so that the next register is marked: one more is given before it. -/
theorem exists_marked
    (length_eq : marked.length = registers) :
    ∃ longer : List Bool, marked <+: longer ∧ longer.length = registers + 1 ∧
      ∀ marks, longer <+: marks ->
        shifted marks (registers + 1) = shifted marks registers + 2 ∧
        (∀ register, shifted marks register ≠ shifted marks registers + 1) ∧
        Marked marks (registers + 1) := by
  subst length_eq
  refine ⟨marked ++ [true], List.prefix_append _ _, by simp, ?_⟩
  rintro _ ⟨after, rfl⟩
  rw [← List.append_cons]
  have front := shifted_length marked (true :: after)
  have next := shifted_length_succ marked after true
  rw [Bool.toNat_true] at next
  refine ⟨by omega, fun register => ?_, by simp [Marked]⟩
  rw [front]
  exact shifted_ne marked after register

end Marks

namespace Lowering

variable {context : Context} {tags' : TagTable}

/-- The same context with another table. -/
def Context.retagged (context : Context) (tags' : TagTable) : Context :=
  { context with tags := tags' }

/-- The table gives an expression that checks its type. -/
theorem Context.Checks.typeOf?_eq
    {expression : Expr}
    {type : ValueType}
    (checks : context.Checks expression type) :
    context.typeOf? expression = some type :=
  (typeOf?_of_run (gives_typeOf checks.typed checks.holds {})).1

section Shift

variable {marks : List Bool} {value result : Operand} {type : ValueType} {items : List Item}
  {registers registers' : Nat}

theorem CoercionCode.le
    {wanted : ValueType}
    (coerced : CoercionCode value type wanted registers items result registers') :
    registers ≤ registers' := by
  cases coerced <;> omega

theorem UnaryCode.le
    {op : UnaryOp}
    (applied : UnaryCode op type value registers items result registers') :
    registers ≤ registers' := by
  cases applied <;> omega

theorem PrintCode.le
    {format : Format}
    (print : PrintCode value registers format type items registers') :
    registers ≤ registers' := by
  cases print <;> omega

variable (even : shifted marks registers' = shifted marks registers + (registers' - registers))
include even

theorem CoercionCode.shift
    {wanted : ValueType}
    (coerced : CoercionCode value type wanted registers items result registers') :
    CoercionCode (value.shift (shifted marks)) type wanted (shifted marks registers)
      (items.map (Item.shift (shifted marks))) (result.shift (shifted marks))
      (shifted marks registers') := by
  cases coerced with
  | promoted =>
      rw [Nat.add_sub_cancel_left] at even
      simp only [List.map_cons, List.map_nil, Item.shift, Instr.shift, Operand.shift, even]
      exact .promoted _ _
  | kept _ fits => exact .kept _ _ fits

theorem UnaryCode.shift
    {op : UnaryOp}
    (applied : UnaryCode op type value registers items result registers') :
    UnaryCode op type (value.shift (shifted marks)) (shifted marks registers)
      (items.map (Item.shift (shifted marks))) (result.shift (shifted marks))
      (shifted marks registers') := by
  cases applied with
  | applied lowered =>
      rw [Nat.add_sub_cancel_left] at even
      cases lowered <;>
        simp only [List.map_cons, List.map_nil, Item.shift, Instr.shift, Operand.shift, even] <;>
        exact .applied (by constructor)
  | kept identity => exact .kept _ _ identity

theorem PrintCode.shift
    {format : Format}
    (print : PrintCode value registers format type items registers') :
    PrintCode (value.shift (shifted marks)) (shifted marks registers) format type
      (items.map (Item.shift (shifted marks))) (shifted marks registers') := by
  cases print with
  | bool =>
      rw [Nat.add_sub_cancel_left] at even
      simp only [List.map_cons, List.map_nil, Item.shift, Instr.shift, even]
      exact .bool
  | int => exact .int
  | hex => exact .hex
  | double => exact .double

end Shift

/-! ## Code -/

/-- The lines of a logical operator between its operands. -/
theorem map_shift_logicalOpening
    (place : Register -> Register)
    (op : BinaryOp)
    (left : Operand)
    (labels : Nat) :
    (logicalOpening op left labels).map (Item.shift place) =
      logicalOpening op (left.shift place) labels := by
  simp only [logicalOpening, List.map_cons, List.map_nil, Item.shift, decision]
  cases shortValue op <;> rfl

/-- The lines of a logical operator after its operands. -/
theorem map_shift_logicalClosing
    {place : Register -> Register}
    {registers : Nat}
    (next : place (registers + 1) = place registers + 1)
    (op : BinaryOp)
    (right : Operand)
    (labels : Nat) :
    (logicalClosing op right registers labels).map (Item.shift place) =
      logicalClosing op (right.shift place) (place registers) labels := by
  simp only [logicalClosing, List.map_cons, List.map_nil, Item.shift, Instr.shift, Operand.shift,
    next]

/-- Code of an expression for all marks that go on from given ones: that of another, with tests
replaced. -/
def CarriedExpr (context : Context) (expression : Expr) (marked : List Bool)
    (registers labels : Nat) (code : List Item) (operand : Operand) (registers' labels' : Nat) :
    Prop :=
  ∀ marks, marked <+: marks ->
    ∃ code', ExprCode context expression (shifted marks registers) labels code'
        (operand.shift (shifted marks)) (shifted marks registers') labels' ∧
      Rewrites marks code code'

/-- An expression with inequalities negated has the same type in its table. -/
theorem typeOf?_of_negates
    {expression expression' : Expr}
    {type : ValueType}
    (negates : expression.Negates expression')
    (checks : context.Checks expression type)
    (holds : tags'.Holds (expression'.marks context.scope)) :
    (context.retagged tags').typeOf? expression' = some type :=
  Context.Checks.typeOf?_eq ⟨negates.hasType checks.typed, holds⟩

/-- For an inequality there is a test for inequality, and the test for equality is that for an
equality. -/
theorem operation?_eq_of_ne
    {type : ValueType}
    {operation : Operation}
    (lowered : operation? .ne type = some operation) :
    operation.isInequality = true ∧ operation? .eq type = some operation.equality ∧
      operation.equality.resultType = .bool := by
  cases type <;> cases lowered <;> exact ⟨rfl, rfl, rfl⟩

/-- The operands of an infix operator, brought to their common type, for all marks that go on from
given ones. -/
def CarriedOperands (context : Context) (left right : Expr) (leftType rightType type : ValueType)
    (marked : List Bool) (registers labels : Nat) (code : List Item)
    (leftOperand rightOperand : Operand) (registers' labels' : Nat) : Prop :=
  ∀ marks, marked <+: marks ->
    ∃ leftCode rightCode leftCoercion rightCoercion leftValue rightValue registers₁ labels₁
        registers₂ registers₃,
      ExprCode context left (shifted marks registers) labels leftCode leftValue registers₁
        labels₁ ∧
      ExprCode context right registers₁ labels₁ rightCode rightValue registers₂ labels' ∧
      CoercionCode leftValue leftType type registers₂ leftCoercion
        (leftOperand.shift (shifted marks)) registers₃ ∧
      CoercionCode rightValue rightType type registers₃ rightCoercion
        (rightOperand.shift (shifted marks)) (shifted marks registers') ∧
      Rewrites marks code (leftCode ++ rightCode ++ leftCoercion ++ rightCoercion)

section Operands

variable {left right : Expr} {leftType rightType type : ValueType}
  {leftCode rightCode leftCoercion rightCoercion : List Item}
  {leftValue rightValue leftOperand rightOperand : Operand}
  {registers labels registers₁ labels₁ registers₂ labels₂ registers₃ registers₄ : Nat}

/-- The operands of an infix operator are carried over with what brings them to their common
type. -/
theorem exists_carriedOperands
    {before : List Bool}
    (leftCarries : ∃ marked, before <+: marked ∧ marked.length = registers₁ ∧
      CarriedExpr context left marked registers labels leftCode leftValue registers₁ labels₁)
    (rightCarries : ∀ {before : List Bool}, before.length = registers₁ ->
      ∃ marked, before <+: marked ∧ marked.length = registers₂ ∧
        CarriedExpr context right marked registers₁ labels₁ rightCode rightValue registers₂ labels₂)
    (leftCoerced : CoercionCode leftValue leftType type registers₂ leftCoercion leftOperand
      registers₃)
    (rightCoerced : CoercionCode rightValue rightType type registers₃ rightCoercion rightOperand
      registers₄) :
    ∃ marked, before <+: marked ∧ marked.length = registers₄ ∧
      CarriedOperands context left right leftType rightType type marked registers labels
        (leftCode ++ rightCode ++ leftCoercion ++ rightCoercion) leftOperand rightOperand registers₄
        labels₂ := by
  obtain ⟨marked₁, front₁, length₁, leftCarried⟩ := leftCarries
  obtain ⟨marked₂, front₂, length₂, rightCarried⟩ := rightCarries length₁
  obtain ⟨marked₃, front₃, length₃, leftEven⟩ := exists_unmarked length₂ leftCoerced.le
  obtain ⟨marked₄, front₄, length₄, rightEven⟩ := exists_unmarked length₃ rightCoerced.le
  have front := front₃.trans front₄
  refine ⟨marked₄, (front₁.trans front₂).trans front, length₄, fun marks going => ?_⟩
  have going₂ := front.trans going
  obtain ⟨leftCode', leftEmitted, leftRewrites⟩ := leftCarried marks (front₂.trans going₂)
  obtain ⟨rightCode', rightEmitted, rightRewrites⟩ := rightCarried marks going₂
  exact ⟨_, _, _, _, _, _, _, _, _, _, leftEmitted, rightEmitted,
    leftCoerced.shift (leftEven marks (front₄.trans going)),
    rightCoerced.shift (rightEven marks going),
    ((leftRewrites.append rightRewrites).append (.of_map marks _)).append (.of_map marks _)⟩

variable {site : Site} {op : BinaryOp} {left right : Unit -> Expr} {operation : Operation}
  {marked : List Bool} {code : List Item}

/-- An infix operator that stays is carried over with its operands. -/
theorem CarriedOperands.exists_kept
    (operands : CarriedOperands context (left ()) (right ()) leftType rightType type marked registers
      labels code leftOperand rightOperand registers₄ labels₂)
    (length_eq : marked.length = registers₄)
    (plain : op.family ≠ .logical)
    (tagged : context.typeAt? site = some operation.resultType)
    (leftTagged : context.typeOf? (left ()) = some leftType)
    (rightTagged : context.typeOf? (right ()) = some rightType)
    (common : commonType? leftType rightType = some type)
    (lowered : operation? op type = some operation) :
    ∃ longer, marked <+: longer ∧ longer.length = registers₄ + 1 ∧
      CarriedExpr context (.binary site op left right) longer registers labels
        (code ++ [.instr (.operate (registers₄ + 1) operation leftOperand rightOperand)])
        (.register (registers₄ + 1)) (registers₄ + 1) labels₂ := by
  obtain ⟨longer, front, longer_length, even⟩ := exists_unmarked length_eq (Nat.le_succ registers₄)
  refine ⟨longer, front, longer_length, fun marks going => ?_⟩
  obtain ⟨_, _, _, _, _, _, _, _, _, _, leftEmitted, rightEmitted, leftCoerced, rightCoerced,
    rewrites⟩ := operands marks (front.trans going)
  have next := even marks going
  rw [Nat.succ_eq_add_one, Nat.add_sub_cancel_left] at next
  refine ⟨_, ?_, rewrites.append (.of_map marks [_])⟩
  simp only [List.map_cons, List.map_nil, Item.shift, Instr.shift, Operand.shift, next]
  exact .binary site op plain tagged leftTagged rightTagged leftEmitted rightEmitted common
    leftCoerced rightCoerced lowered rfl

/-- An inequality is carried over to the negation of an equality. -/
theorem CarriedOperands.exists_negated
    (operands : CarriedOperands context (left ()) (right ()) leftType rightType type marked registers
      labels code leftOperand rightOperand registers₄ labels₂)
    (length_eq : marked.length = registers₄)
    {site' : Site}
    {inner : Unit -> Expr}
    (inner_eq : inner () = .binary site .eq left right)
    (tagged : context.typeAt? site = some .bool)
    (tagged' : context.typeAt? site' = some .bool)
    (leftTagged : context.typeOf? (left ()) = some leftType)
    (rightTagged : context.typeOf? (right ()) = some rightType)
    (common : commonType? leftType rightType = some type)
    (lowered : operation? .ne type = some operation) :
    ∃ longer, marked <+: longer ∧ longer.length = registers₄ + 1 ∧
      CarriedExpr context (.unary site' .not inner) longer registers labels
        (code ++ [.instr (.operate (registers₄ + 1) operation leftOperand rightOperand)])
        (.register (registers₄ + 1)) (registers₄ + 1) labels₂ := by
  obtain ⟨longer, front, longer_length, shifts⟩ := exists_marked length_eq
  refine ⟨longer, front, longer_length, fun marks going => ?_⟩
  obtain ⟨_, _, _, _, _, _, _, _, _, _, leftEmitted, rightEmitted, leftCoerced, rightCoerced,
    rewrites⟩ := operands marks (front.trans going)
  obtain ⟨next, new, marked⟩ := shifts marks going
  obtain ⟨inequality, lowered', result_eq⟩ := operation?_eq_of_ne lowered
  have equality := ExprCode.binary site .eq (by decide) tagged leftTagged rightTagged leftEmitted
    rightEmitted common leftCoerced rightCoerced lowered' result_eq
  have replaced := Rewrites.replaced leftOperand rightOperand inequality marked new .nil
  rw [← inner_eq] at equality
  have innerTagged : context.typeOf? (inner ()) = some .bool := by
    rw [inner_eq]
    exact tagged
  have negation := ExprCode.unary site' .not tagged' innerTagged equality (.applied .not)
  refine ⟨_, ?_, rewrites.append replaced⟩
  rw [Operand.shift, next]
  rw [List.append_assoc] at negation
  exact negation

end Operands

/-- The code of an expression is carried over to one with inequalities negated. -/
theorem ExprCode.exists_carried
    {expression expression' : Expr}
    {type : ValueType}
    {registers labels registers' labels' : Nat}
    {code : List Item}
    {operand : Operand}
    (emitted : ExprCode context expression registers labels code operand registers' labels')
    (negates : expression.Negates expression')
    (checks : context.Checks expression type)
    (holds : tags'.Holds (expression'.marks context.scope))
    {before : List Bool}
    (length_eq : before.length = registers) :
    ∃ marked, before <+: marked ∧ marked.length = registers' ∧
      CarriedExpr (context.retagged tags') expression' marked registers labels code operand
        registers' labels' := by
  -- Each register that the code gives gets its mark here.  Code that comes later adds marks of its
  -- own, so the code is carried for all marks that go on from these.
  induction emitted generalizing expression' type before with
  | int | double | bool =>
      have tagged' := typeOf?_of_negates negates checks holds
      cases negates
      refine ⟨before, List.prefix_rfl, length_eq, fun marks _ => ⟨[], ?_, .nil⟩⟩
      constructor
      exact tagged'
  | name site spelling registers labels tagged found =>
      have tagged' := typeOf?_of_negates negates checks holds
      cases negates with
      | name _ site' =>
          obtain ⟨marked, front, marked_length, even⟩ :=
            exists_unmarked length_eq (Nat.le_succ registers)
          refine ⟨marked, front, marked_length, fun marks going => ?_⟩
          have next := even marks going
          rw [Nat.succ_eq_add_one, Nat.add_sub_cancel_left] at next
          refine ⟨_, ?_, .of_map marks _⟩
          simp only [List.map_cons, List.map_nil, Item.shift, Instr.shift, Operand.shift, next]
          exact .name site' spelling _ _ tagged' found
  | assign site target tagged valueTagged valueCode found accepts coerced inductionHypothesis =>
      have tagged' := typeOf?_of_negates negates checks holds
      cases negates with
      | @assign _ site' _ target' _ _ name_eq valueNegates =>
          have valueChecks := checks.value valueTagged
          have valueHolds := (TagTable.holds_append.1 holds).1
          obtain ⟨marked₁, front₁, length₁, carried⟩ :=
            inductionHypothesis valueNegates valueChecks valueHolds length_eq
          obtain ⟨marked, front, marked_length, even⟩ := exists_unmarked length₁ coerced.le
          refine ⟨marked, front₁.trans front, marked_length, fun marks going => ?_⟩
          obtain ⟨code', valueCode', rewrites⟩ := carried marks (front.trans going)
          rw [← name_eq] at found ⊢
          refine ⟨_, .assign site' target' tagged'
            (typeOf?_of_negates valueNegates valueChecks valueHolds) valueCode' found accepts
            (coerced.shift (even marks going)), ?_⟩
          exact (rewrites.append (.of_map marks _)).append (.of_map marks [_])
  | unary site op tagged operandTagged operandCode unaryCode inductionHypothesis =>
      have tagged' := typeOf?_of_negates negates checks holds
      cases negates with
      | unary _ site' _ operandNegates =>
          have operandChecks := checks.operand operandTagged
          have operandHolds := (TagTable.holds_append.1 holds).1
          obtain ⟨marked₁, front₁, length₁, carried⟩ :=
            inductionHypothesis operandNegates operandChecks operandHolds length_eq
          obtain ⟨marked, front, marked_length, even⟩ := exists_unmarked length₁ unaryCode.le
          refine ⟨marked, front₁.trans front, marked_length, fun marks going => ?_⟩
          obtain ⟨code', operandCode', rewrites⟩ := carried marks (front.trans going)
          exact ⟨_, .unary site' op tagged'
            (typeOf?_of_negates operandNegates operandChecks operandHolds) operandCode'
            (unaryCode.shift (even marks going)), rewrites.append (.of_map marks _)⟩
  | @binary _ _ _ _ _ _ _ _ _ resultType _ _ _ _ _ _ _ _ _ _ _ _ _ _ _ plain tagged leftTagged
      rightTagged _ _ common leftCoerced rightCoerced lowered result_eq leftHypothesis
      rightHypothesis =>
      have typed' := negates.hasType checks.typed
      have tagged' := typeOf?_of_negates negates checks holds
      obtain rfl : type = resultType := Option.some.inj (checks.typeOf?_eq.symm.trans tagged)
      obtain ⟨leftChecks, rightChecks⟩ := checks.operands leftTagged rightTagged
      cases negates with
      | binary _ site' _ leftNegates rightNegates =>
          obtain ⟨leftHolds, rightHolds⟩ := TagTable.holds_append.1 (TagTable.holds_append.1 holds).1
          obtain ⟨marked, front, marked_length, carried⟩ := exists_carriedOperands
            (leftHypothesis leftNegates leftChecks leftHolds length_eq)
            (rightHypothesis rightNegates rightChecks rightHolds) leftCoerced rightCoerced
          obtain ⟨longer, further, longer_length, whole⟩ := carried.exists_kept marked_length plain
            (result_eq ▸ tagged') (typeOf?_of_negates leftNegates leftChecks leftHolds)
            (typeOf?_of_negates rightNegates rightChecks rightHolds) common lowered
          exact ⟨longer, front.trans further, longer_length, whole⟩
      | negated _ site₁ site₂ inner_eq leftNegates rightNegates =>
          have innerHolds := (TagTable.holds_append.1 holds).1
          cases typed' with
          | unary _ innerTyped turns =>
              cases turns
              have innerTagged : (context.retagged tags').typeOf? _ = some .bool :=
                Context.Checks.typeOf?_eq ⟨innerTyped, innerHolds⟩
              rw [inner_eq] at innerHolds innerTagged
              obtain ⟨leftHolds, rightHolds⟩ :=
                TagTable.holds_append.1 (TagTable.holds_append.1 innerHolds).1
              obtain ⟨marked, front, marked_length, carried⟩ := exists_carriedOperands
                (leftHypothesis leftNegates leftChecks leftHolds length_eq)
                (rightHypothesis rightNegates rightChecks rightHolds) leftCoerced rightCoerced
              obtain ⟨longer, further, longer_length, whole⟩ := carried.exists_negated marked_length
                inner_eq innerTagged tagged' (typeOf?_of_negates leftNegates leftChecks leftHolds)
                (typeOf?_of_negates rightNegates rightChecks rightHolds) common lowered
              exact ⟨longer, front.trans further, longer_length, whole⟩
  | logical site op logical tagged leftTagged rightTagged _ _ leftHypothesis rightHypothesis =>
      have tagged' := typeOf?_of_negates negates checks holds
      obtain ⟨leftChecks, rightChecks⟩ := checks.operands leftTagged rightTagged
      cases negates with
      | binary _ site' _ leftNegates rightNegates =>
          obtain ⟨leftHolds, rightHolds⟩ := TagTable.holds_append.1 (TagTable.holds_append.1 holds).1
          obtain ⟨marked₁, front₁, length₁, leftCarried⟩ :=
            leftHypothesis leftNegates leftChecks leftHolds length_eq
          obtain ⟨marked₂, front₂, length₂, rightCarried⟩ :=
            rightHypothesis rightNegates rightChecks rightHolds length₁
          obtain ⟨marked, front, marked_length, even⟩ := exists_unmarked length₂ (Nat.le_succ _)
          refine ⟨marked, (front₁.trans front₂).trans front, marked_length, fun marks going => ?_⟩
          have going₂ := front.trans going
          obtain ⟨leftCode', leftEmitted, leftRewrites⟩ := leftCarried marks (front₂.trans going₂)
          obtain ⟨rightCode', rightEmitted, rightRewrites⟩ := rightCarried marks going₂
          have next := even marks going
          rw [Nat.succ_eq_add_one, Nat.add_sub_cancel_left] at next
          refine ⟨_, ?_, ((leftRewrites.append (.of_map marks _)).append rightRewrites).append
            (.of_map marks _)⟩
          rw [map_shift_logicalOpening, map_shift_logicalClosing next, Operand.shift, next]
          exact .logical site' op logical tagged'
            (typeOf?_of_negates leftNegates leftChecks leftHolds)
            (typeOf?_of_negates rightNegates rightChecks rightHolds) leftEmitted rightEmitted
      | negated => cases logical

/-- Code of a statement for all marks that go on from given ones: that of another, with tests
replaced. -/
def CarriedStmt (context : Context) (statement : Stmt) (marked : List Bool)
    (registers labels : Nat) (code : List Item) (registers' labels' : Nat) : Prop :=
  ∀ marks, marked <+: marks ->
    ∃ code', StmtCode context statement (shifted marks registers) labels code'
        (shifted marks registers') labels' ∧
      Rewrites marks code code'

/-- The code of a statement is carried over to one with inequalities negated. -/
theorem StmtCode.exists_carried
    {statement statement' : Stmt}
    {registers labels registers' labels' : Nat}
    {code : List Item}
    (emitted : StmtCode context statement registers labels code registers' labels')
    (negates : statement.Negates statement')
    (checks : context.ChecksStmt statement)
    (holds : tags'.Holds (statement'.marks context.scope))
    {before : List Bool}
    (length_eq : before.length = registers) :
    ∃ marked, before <+: marked ∧ marked.length = registers' ∧
      CarriedStmt (context.retagged tags') statement' marked registers labels code registers'
        labels' := by
  induction emitted generalizing statement' before with
  | done =>
      cases negates
      exact ⟨before, List.prefix_rfl, length_eq, fun marks _ => ⟨[], .done _ _, .nil⟩⟩
  | seq _ _ firstHypothesis restHypothesis =>
      obtain ⟨firstChecks, restChecks⟩ := checks.parts
      cases negates with
      | seq firstNegates restNegates =>
          obtain ⟨firstHolds, restHolds⟩ := TagTable.holds_append.1 holds
          obtain ⟨marked₁, front₁, length₁, firstCarried⟩ :=
            firstHypothesis firstNegates firstChecks firstHolds length_eq
          obtain ⟨marked, front, marked_length, restCarried⟩ :=
            restHypothesis restNegates restChecks restHolds length₁
          refine ⟨marked, front₁.trans front, marked_length, fun marks going => ?_⟩
          obtain ⟨firstCode', firstEmitted, firstRewrites⟩ := firstCarried marks (front.trans going)
          obtain ⟨restCode', restEmitted, restRewrites⟩ := restCarried marks going
          exact ⟨_, .seq firstEmitted restEmitted, firstRewrites.append restRewrites⟩
  | block line _ bodyHypothesis =>
      obtain ⟨typed, bodyTags⟩ := checks
      cases typed with
      | block _ bodyTyped =>
          cases negates with
          | block _ line' bodyNegates =>
              obtain ⟨marked, front, marked_length, carried⟩ :=
                bodyHypothesis bodyNegates ⟨bodyTyped, bodyTags⟩ holds length_eq
              refine ⟨marked, front, marked_length, fun marks going => ?_⟩
              obtain ⟨code', emitted', rewrites⟩ := carried marks going
              exact ⟨code', .block line' emitted', rewrites⟩
  | expr line valueEmitted =>
      obtain ⟨typed, valueTags⟩ := checks
      cases typed with
      | expr _ valueTyped =>
          cases negates with
          | expr _ line' valueNegates =>
              obtain ⟨marked, front, marked_length, carried⟩ :=
                valueEmitted.exists_carried valueNegates ⟨valueTyped, valueTags⟩ holds length_eq
              refine ⟨marked, front, marked_length, fun marks going => ?_⟩
              obtain ⟨code', emitted', rewrites⟩ := carried marks going
              exact ⟨code', .expr line' emitted', rewrites⟩
  | branch line testEmitted _ _ yesHypothesis noHypothesis =>
      obtain ⟨testChecks, yesChecks, noChecks⟩ := checks.branch
      cases negates with
      | branch _ line' testNegates yesNegates noNegates =>
          obtain ⟨above, noHolds⟩ := TagTable.holds_append.1 holds
          obtain ⟨testHolds, yesHolds⟩ := TagTable.holds_append.1 above
          obtain ⟨marked₁, front₁, length₁, testCarried⟩ :=
            testEmitted.exists_carried testNegates testChecks testHolds length_eq
          obtain ⟨marked₂, front₂, length₂, yesCarried⟩ :=
            yesHypothesis yesNegates yesChecks yesHolds length₁
          obtain ⟨marked, front, marked_length, noCarried⟩ :=
            noHypothesis noNegates noChecks noHolds length₂
          refine ⟨marked, (front₁.trans front₂).trans front, marked_length, fun marks going => ?_⟩
          have going₂ := front.trans going
          obtain ⟨testCode', testEmitted', testRewrites⟩ := testCarried marks (front₂.trans going₂)
          obtain ⟨yesCode', yesEmitted, yesRewrites⟩ := yesCarried marks going₂
          obtain ⟨noCode', noEmitted, noRewrites⟩ := noCarried marks going
          exact ⟨_, .branch line' testEmitted' yesEmitted noEmitted,
            (((((testRewrites.append (.of_map marks [_, _])).append yesRewrites).append
              (.of_map marks [_, _])).append noRewrites).append (.of_map marks [_, _]))⟩
  | loop line testEmitted _ bodyHypothesis =>
      obtain ⟨testChecks, bodyChecks⟩ := checks.loop
      cases negates with
      | loop _ line' testNegates bodyNegates =>
          obtain ⟨testHolds, bodyHolds⟩ := TagTable.holds_append.1 holds
          obtain ⟨marked₁, front₁, length₁, testCarried⟩ :=
            testEmitted.exists_carried testNegates testChecks testHolds length_eq
          obtain ⟨marked, front, marked_length, bodyCarried⟩ :=
            bodyHypothesis bodyNegates bodyChecks bodyHolds length₁
          refine ⟨marked, front₁.trans front, marked_length, fun marks going => ?_⟩
          obtain ⟨testCode', testEmitted', testRewrites⟩ := testCarried marks (front.trans going)
          obtain ⟨bodyCode', bodyEmitted, bodyRewrites⟩ := bodyCarried marks going
          exact ⟨_, .loop line' testEmitted' bodyEmitted,
            (((Rewrites.of_map marks [_, _]).append testRewrites).append
              (.of_map marks [_, _])).append bodyRewrites |>.append (.of_map marks [_, _])⟩
  | write line tagged valueEmitted print =>
      obtain ⟨typed, valueTags⟩ := checks
      cases typed with
      | write _ valueTyped writes =>
          have valueChecks := Context.Checks.of_tagged ⟨valueTyped, valueTags⟩ tagged
          cases negates with
          | write _ line' format valueNegates =>
              obtain ⟨marked₁, front₁, length₁, carried⟩ :=
                valueEmitted.exists_carried valueNegates valueChecks holds length_eq
              obtain ⟨marked, front, marked_length, even⟩ := exists_unmarked length₁ print.le
              refine ⟨marked, front₁.trans front, marked_length, fun marks going => ?_⟩
              obtain ⟨code', emitted', rewrites⟩ := carried marks (front.trans going)
              exact ⟨_, .write line' (typeOf?_of_negates valueNegates valueChecks holds) emitted'
                (print.shift (even marks going)), rewrites.append (.of_map marks _)⟩
  | writeText line registers labels found =>
      cases negates with
      | writeText _ line' =>
          exact ⟨before, List.prefix_rfl, length_eq, fun marks _ =>
            ⟨_, .writeText line' _ _ found, .of_map marks [_]⟩⟩
  | read line registers labels found scan =>
      cases negates with
      | read _ line' format name_eq =>
          rw [← name_eq] at found ⊢
          exact ⟨before, List.prefix_rfl, length_eq, fun marks _ =>
            ⟨_, .read line' _ _ found scan, .of_map marks [_]⟩⟩
  | leave line =>
      cases negates with
      | leave _ line' =>
          exact ⟨before, List.prefix_rfl, length_eq, fun marks _ =>
            ⟨_, .leave line' _ _, .of_map marks [_, _]⟩⟩

end Lowering

open Lowering

/-- A program with the same variables and strings, in whose body inequalities are replaced by negated
equalities, some of them or none. -/
structure Program.Negates (program program' : Program) : Prop where
  scope_eq : program'.scope = program.scope
  texts_eq : program'.forest.texts = program.forest.texts
  tree : program.tree.Negates program'.tree

/-- The lines that reserve the slots of variables have no registers. -/
theorem Scope.map_shift_slots
    (scope : Scope)
    (place : Register -> Register) :
    scope.slots.map (Item.shift place) = scope.slots := by
  rw [Scope.slots, List.map_map]
  rfl

namespace Program.Negates

variable {program program' : Program} {tags tags' : TagTable} {code code' : CodeModule}

/-- A program stays accepted. -/
theorem exists_accepts
    (negates : program.Negates program')
    (wellFounded : program.WellFounded)
    (wellFounded' : program'.WellFounded)
    (accepts : program.check = .ok (tags, [])) :
    ∃ tags', program'.check = .ok (tags', []) := by
  have typed := negates.tree.wellTyped (wellFounded.accepted accepts).1
  rw [← negates.scope_eq] at typed
  have checked := wellFounded'.check_eq
  rw [typed.breaches_eq_nil] at checked
  exact ⟨_, checked⟩

/-- The code of the program is rewritten to that of the other. -/
theorem exists_rewrites
    (negates : program.Negates program')
    (wellFounded : program.WellFounded)
    (wellFounded' : program'.WellFounded)
    (accepts : program.check = .ok (tags, []))
    (accepts' : program'.check = .ok (tags', []))
    (generated : program.generate tags = .ok code)
    (generated' : program'.generate tags' = .ok code') :
    code'.texts = code.texts ∧ ∃ marks, Rewrites marks code.items code'.items := by
  obtain ⟨typed, holds⟩ := wellFounded.accepted accepts
  obtain ⟨-, holds'⟩ := wellFounded'.accepted accepts'
  obtain ⟨body, registers, labels, emitted, items_eq, texts_eq⟩ :=
    Program.stmtCode_of_generate generated
  obtain ⟨body', registers', labels', emitted', items_eq', texts_eq'⟩ :=
    Program.stmtCode_of_generate generated'
  rw [negates.scope_eq] at holds' items_eq'
  rw [negates.texts_eq] at texts_eq'
  have context_eq : program'.context tags' = (program.context tags).retagged tags' := by
    rw [Program.context, negates.scope_eq, negates.texts_eq]
    rfl
  obtain ⟨marks, -, -, carried⟩ :=
    emitted.exists_carried negates.tree ⟨typed, holds⟩ holds' List.length_nil
  obtain ⟨carriedBody, carriedCode, rewrites⟩ := carried marks List.prefix_rfl
  rw [context_eq] at emitted'
  obtain ⟨rfl, -, -⟩ := emitted'.unique carriedCode
  refine ⟨texts_eq'.trans texts_eq.symm, marks, ?_⟩
  have opening := Rewrites.of_map marks (.label .entry :: program.scope.slots)
  rw [List.map_cons, Scope.map_shift_slots] at opening
  rw [items_eq, items_eq']
  exact (opening.append rewrites).append (.of_map marks [_])

end Program.Negates

end MiniLang
