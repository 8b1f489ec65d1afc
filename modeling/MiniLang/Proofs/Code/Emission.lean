import MiniLang.Code.Lower
import MiniLang.Proofs.Failure

/-!
# The emitted code

The generator works on a state; here the code that it emits is described by rules instead.  A rule
gives the items of a construct from those of its parts, with the numbers of registers and labels
that have been given before and after it.  Whenever the generator goes through, the items that it
adds to its state are code by these rules, so facts about generated code are proved by induction on
the rules.
-/

namespace MiniLang

/-- The site of an expression. -/
def Expr.site? : Expr -> Option Site
  | .name site _ => some site
  | .int site _ => some site
  | .double site _ => some site
  | .bool site _ => some site
  | .unary site _ _ => some site
  | .binary site _ _ _ => some site
  | .assign site _ _ => some site
  | .dangling _ => none

namespace Lowering

/-- The type that the table gives to a site. -/
def Context.typeAt? (context : Context) (site : Site) : Option ValueType :=
  (context.tags.get? site.id).bind Tag.type?

/-- The type that the table gives to an expression. -/
def Context.typeOf? (context : Context) (expression : Expr) : Option ValueType :=
  expression.site?.bind context.typeAt?

/-- The instruction that leaves for the end of a logical operator if its left operand decides, and
for its right operand otherwise. -/
def decision (op : BinaryOp) (left : Operand) (joined right : Label) : Instr :=
  if shortValue op then .fork left joined right else .fork left right joined

/-- The lines between the operands of a logical operator: a block that decides, and the start of the
right operand. -/
def logicalOpening (op : BinaryOp) (left : Operand) (labels : Nat) : List Item :=
  [.instr (.jump (.numbered (labels + 1))),
    .label (.numbered (labels + 1)),
    .instr (decision op left (.numbered (labels + 4)) (.numbered (labels + 2))),
    .label (.numbered (labels + 2))]

/-- The lines after the right operand of a logical operator: a block that holds its end, and the
block in which the two ways meet. -/
def logicalClosing (op : BinaryOp) (right : Operand) (registers labels : Nat) : List Item :=
  [.instr (.jump (.numbered (labels + 3))),
    .label (.numbered (labels + 3)),
    .instr (.jump (.numbered (labels + 4))),
    .label (.numbered (labels + 4)),
    .instr (.phi (registers + 1) (.bool (shortValue op)) (.numbered (labels + 1)) right
      (.numbered (labels + 3)))]

/-- Bringing an operand of one type to another: the code, its result, and the registers given
afterwards. -/
inductive CoercionCode : Operand -> ValueType -> ValueType -> Nat -> List Item -> Operand -> Nat ->
    Prop where
  | promoted (value : Operand) (registers : Nat) :
      CoercionCode value .int .double registers
        [.instr (.convert (registers + 1) .sitofp value)] (.register (registers + 1))
        (registers + 1)
  | kept (value : Operand) {type wanted : ValueType} (registers : Nat)
      (fits : ¬(type = .int ∧ wanted = .double)) :
      CoercionCode value type wanted registers [] value registers

/-- The instruction that applies a prefix operator to an operand of a type. -/
inductive UnaryInstr (value : Operand) (target : Register) : UnaryOp -> ValueType -> Instr -> Prop
  where
  | negInt : UnaryInstr value target .neg .int
      (.operate target (.calculate .sub .int) (.int 0) value)
  | negDouble : UnaryInstr value target .neg .double (.fneg target value)
  | bitNot : UnaryInstr value target .bitNot .int
      (.operate target (.calculate .xor .int) value (.int (-1)))
  | not : UnaryInstr value target .not .bool
      (.operate target (.calculate .xor .bool) value (.bool true))
  | truncate : UnaryInstr value target .toInt .double (.convert target .fptosi value)
  | extend : UnaryInstr value target .toInt .bool (.convert target .zext value)
  | promote : UnaryInstr value target .toDouble .int (.convert target .sitofp value)

/-- A cast to the type that the operand has. -/
inductive IdentityCast : UnaryOp -> ValueType -> Prop where
  | int : IdentityCast .toInt .int
  | double : IdentityCast .toDouble .double

/-- The code of a prefix operator on an operand of a type. -/
inductive UnaryCode : UnaryOp -> ValueType -> Operand -> Nat -> List Item -> Operand -> Nat -> Prop
  where
  | applied {op : UnaryOp} {type : ValueType} {value : Operand} {registers : Nat} {instr : Instr}
      (lowered : UnaryInstr value (registers + 1) op type instr) :
      UnaryCode op type value registers [.instr instr] (.register (registers + 1)) (registers + 1)
  | kept {op : UnaryOp} {type : ValueType} (value : Operand) (registers : Nat)
      (identity : IdentityCast op type) :
      UnaryCode op type value registers [] value registers

/-- The code of an expression: its items, the operand that holds its value, and the numbers of
registers and labels given before and after. -/
inductive ExprCode (context : Context) : Expr -> Nat -> Nat -> List Item -> Operand -> Nat -> Nat ->
    Prop where
  | int (site : Site) (value : Int32) (registers labels : Nat) {type : ValueType}
      (tagged : context.typeAt? site = some type) :
      ExprCode context (.int site value) registers labels [] (.int value) registers labels
  | double (site : Site) (bits : UInt64) (registers labels : Nat) {type : ValueType}
      (tagged : context.typeAt? site = some type) :
      ExprCode context (.double site bits) registers labels [] (.double bits) registers labels
  | bool (site : Site) (value : Bool) (registers labels : Nat) {type : ValueType}
      (tagged : context.typeAt? site = some type) :
      ExprCode context (.bool site value) registers labels [] (.bool value) registers labels
  | name (site : Site) (spelling : String) (registers labels : Nat) {type : ValueType}
      {declaration : Declaration}
      (tagged : context.typeAt? site = some type)
      (found : context.scope.lookup spelling = some declaration) :
      ExprCode context (.name site spelling) registers labels
        [.instr (.load (registers + 1) declaration.type spelling)] (.register (registers + 1))
        (registers + 1) labels
  | assign (site : Site) (target : Target) {value : Unit -> Expr} {registers labels : Nat}
      {type valueType : ValueType} {declaration : Declaration}
      {code : List Item} {operand : Operand} {registers₁ labels₁ : Nat}
      {coercion : List Item} {stored : Operand} {registers₂ : Nat}
      (tagged : context.typeAt? site = some type)
      (valueTagged : context.typeOf? (value ()) = some valueType)
      (valueCode : ExprCode context (value ()) registers labels code operand registers₁ labels₁)
      (found : context.scope.lookup target.name = some declaration)
      (accepts : declaration.type.accepts valueType = true)
      (coerced : CoercionCode operand valueType declaration.type registers₁ coercion stored
        registers₂) :
      ExprCode context (.assign site target value) registers labels
        (code ++ coercion ++ [.instr (.store declaration.type stored target.name)]) stored
        registers₂ labels₁
  | unary (site : Site) (op : UnaryOp) {operand : Unit -> Expr} {registers labels : Nat}
      {type operandType : ValueType}
      {code : List Item} {value : Operand} {registers₁ labels₁ : Nat}
      {applied : List Item} {result : Operand} {registers₂ : Nat}
      (tagged : context.typeAt? site = some type)
      (operandTagged : context.typeOf? (operand ()) = some operandType)
      (operandCode : ExprCode context (operand ()) registers labels code value registers₁ labels₁)
      (unaryCode : UnaryCode op operandType value registers₁ applied result registers₂) :
      ExprCode context (.unary site op operand) registers labels (code ++ applied) result
        registers₂ labels₁
  | binary (site : Site) (op : BinaryOp) {left right : Unit -> Expr} {registers labels : Nat}
      {leftType rightType type resultType : ValueType} {operation : Operation}
      {leftCode rightCode : List Item} {leftValue rightValue : Operand}
      {registers₁ labels₁ registers₂ labels₂ : Nat}
      {leftCoercion rightCoercion : List Item} {leftOperand rightOperand : Operand}
      {registers₃ registers₄ : Nat}
      (plain : op.family ≠ .logical)
      (tagged : context.typeAt? site = some resultType)
      (leftTagged : context.typeOf? (left ()) = some leftType)
      (rightTagged : context.typeOf? (right ()) = some rightType)
      (leftEmitted : ExprCode context (left ()) registers labels leftCode leftValue registers₁
        labels₁)
      (rightEmitted : ExprCode context (right ()) registers₁ labels₁ rightCode rightValue
        registers₂ labels₂)
      (common : commonType? leftType rightType = some type)
      (leftCoerced : CoercionCode leftValue leftType type registers₂ leftCoercion leftOperand
        registers₃)
      (rightCoerced : CoercionCode rightValue rightType type registers₃ rightCoercion rightOperand
        registers₄)
      (lowered : operation? op type = some operation)
      (result_eq : operation.resultType = resultType) :
      ExprCode context (.binary site op left right) registers labels
        (leftCode ++ rightCode ++ leftCoercion ++ rightCoercion ++
          [.instr (.operate (registers₄ + 1) operation leftOperand rightOperand)])
        (.register (registers₄ + 1)) (registers₄ + 1) labels₂
  | logical (site : Site) (op : BinaryOp) {left right : Unit -> Expr} {registers labels : Nat}
      {resultType : ValueType}
      {leftCode rightCode : List Item} {leftValue rightValue : Operand}
      {registers₁ labels₁ registers₂ labels₂ : Nat}
      (logical : op.family = .logical)
      (tagged : context.typeAt? site = some resultType)
      (leftTagged : context.typeOf? (left ()) = some .bool)
      (rightTagged : context.typeOf? (right ()) = some .bool)
      (leftEmitted : ExprCode context (left ()) registers labels leftCode leftValue registers₁
        labels₁)
      (rightEmitted : ExprCode context (right ()) registers₁ (labels₁ + 4) rightCode rightValue
        registers₂ labels₂) :
      ExprCode context (.binary site op left right) registers labels
        (leftCode ++ logicalOpening op leftValue labels₁ ++ rightCode ++
          logicalClosing op rightValue registers₂ labels₁)
        (.register (registers₂ + 1)) (registers₂ + 1) labels₂

/-- The code that prints an operand of a type in a format, and the registers given afterwards. -/
inductive PrintCode (value : Operand) (registers : Nat) : Format -> ValueType -> List Item -> Nat ->
    Prop where
  | int : PrintCode value registers .plain .int [.instr (.print .printInt .int value)] registers
  | hex : PrintCode value registers .hex .int [.instr (.print .printHex .int value)] registers
  | double : PrintCode value registers .plain .double [.instr (.print .printDouble .double value)]
      registers
  | bool : PrintCode value registers .plain .bool
      [.instr (.select (registers + 1) value .printTrue .printFalse),
        .instr (.printSelected (registers + 1))] (registers + 1)

/-- The template that scans a variable of a type in a format. -/
inductive ScanTemplate : Format -> ValueType -> Template -> Prop where
  | int : ScanTemplate .plain .int .scanInt
  | hex : ScanTemplate .hex .int .scanHex
  | double : ScanTemplate .plain .double .scanDouble

/-- The code of a statement: its items, and the numbers of registers and labels given before and
after. -/
inductive StmtCode (context : Context) : Stmt -> Nat -> Nat -> List Item -> Nat -> Nat -> Prop where
  | done (registers labels : Nat) : StmtCode context .done registers labels [] registers labels
  | seq {first rest : Stmt} {registers labels registers₁ labels₁ registers₂ labels₂ : Nat}
      {firstCode restCode : List Item}
      (firstEmitted : StmtCode context first registers labels firstCode registers₁ labels₁)
      (restEmitted : StmtCode context rest registers₁ labels₁ restCode registers₂ labels₂) :
      StmtCode context (.seq first rest) registers labels (firstCode ++ restCode) registers₂ labels₂
  | block (line : Line) {body : Unit -> Stmt} {registers labels registers₁ labels₁ : Nat}
      {code : List Item}
      (emitted : StmtCode context (body ()) registers labels code registers₁ labels₁) :
      StmtCode context (.block line body) registers labels code registers₁ labels₁
  | expr (line : Line) {value : Expr} {registers labels registers₁ labels₁ : Nat}
      {code : List Item} {operand : Operand}
      (emitted : ExprCode context value registers labels code operand registers₁ labels₁) :
      StmtCode context (.expr line value) registers labels code registers₁ labels₁
  | branch (line : Line) {condition : Expr} {yes no : Unit -> Stmt} {registers labels : Nat}
      {registers₁ labels₁ registers₂ labels₂ registers₃ labels₃ : Nat}
      {testCode yesCode noCode : List Item} {test : Operand}
      (testEmitted : ExprCode context condition registers labels testCode test registers₁ labels₁)
      (yesEmitted : StmtCode context (yes ()) registers₁ (labels₁ + 3) yesCode registers₂ labels₂)
      (noEmitted : StmtCode context (no ()) registers₂ labels₂ noCode registers₃ labels₃) :
      StmtCode context (.branch line condition yes no) registers labels
        (testCode ++
          [.instr (.fork test (.numbered (labels₁ + 1)) (.numbered (labels₁ + 2))),
            .label (.numbered (labels₁ + 1))] ++
          yesCode ++
          [.instr (.jump (.numbered (labels₁ + 3))), .label (.numbered (labels₁ + 2))] ++
          noCode ++
          [.instr (.jump (.numbered (labels₁ + 3))), .label (.numbered (labels₁ + 3))])
        registers₃ labels₃
  | loop (line : Line) {condition : Expr} {body : Unit -> Stmt} {registers labels : Nat}
      {registers₁ labels₁ registers₂ labels₂ : Nat}
      {testCode bodyCode : List Item} {test : Operand}
      (testEmitted : ExprCode context condition registers (labels + 1) testCode test registers₁
        labels₁)
      (bodyEmitted : StmtCode context (body ()) registers₁ (labels₁ + 2) bodyCode registers₂
        labels₂) :
      StmtCode context (.loop line condition body) registers labels
        ([.instr (.jump (.numbered (labels + 1))), .label (.numbered (labels + 1))] ++
          testCode ++
          [.instr (.fork test (.numbered (labels₁ + 1)) (.numbered (labels₁ + 2))),
            .label (.numbered (labels₁ + 1))] ++
          bodyCode ++
          [.instr (.jump (.numbered (labels + 1))), .label (.numbered (labels₁ + 2))])
        registers₂ labels₂
  | write (line : Line) {value : Expr} {format : Format} {type : ValueType}
      {registers labels registers₁ labels₁ registers₂ : Nat}
      {code printed : List Item} {operand : Operand}
      (tagged : context.typeOf? value = some type)
      (emitted : ExprCode context value registers labels code operand registers₁ labels₁)
      (print : PrintCode operand registers₁ format type printed registers₂) :
      StmtCode context (.write line value format) registers labels (code ++ printed) registers₂
        labels₁
  | writeText (line : Line) {number : Nat} {constant : TextConstant} (registers labels : Nat)
      (found : context.texts.get? number = some constant) :
      StmtCode context (.writeText line number) registers labels
        [.instr (.printText constant.sizeWithEnd number)] registers labels
  | read (line : Line) {target : Target} {format : Format} {declaration : Declaration}
      {template : Template} (registers labels : Nat)
      (found : context.scope.lookup target.name = some declaration)
      (scan : ScanTemplate format declaration.type template) :
      StmtCode context (.read line target format) registers labels
        [.instr (.scan template target.name)] registers labels
  | leave (line : Line) (registers labels : Nat) :
      StmtCode context (.leave line) registers labels
        [.instr .ret, .label (.numbered (labels + 1))] registers (labels + 1)

/-- The items of a state grow by given code. -/
def Adds (before after : Lowering) (code : List Item) : Prop :=
  after.items.toList = before.items.toList ++ code

/-- The state after an instruction was emitted. -/
def emitted (lowering : Lowering) (instr : Instr) : Lowering :=
  { lowering with items := lowering.items.push (.instr instr) }

/-- The state after a block was opened. -/
def opened (lowering : Lowering) (label : Label) : Lowering :=
  { names := lowering.names.openBlock label.text, items := lowering.items.push (.label label) }

/-- The state after a register was given. -/
def registered (lowering : Lowering) : Lowering :=
  { lowering with names := lowering.names.register.2 }

/-- The state after a label was given. -/
def labelled (lowering : Lowering) : Lowering :=
  { lowering with names := lowering.names.label.2 }

section Updates

variable (lowering : Lowering) (instr : Instr) (label : Label)

@[simp] theorem items_emitted :
    (lowering.emitted instr).items.toList = lowering.items.toList ++ [.instr instr] := by
  simp [emitted]

@[simp] theorem items_opened :
    (lowering.opened label).items.toList = lowering.items.toList ++ [.label label] := by
  simp [opened]

@[simp] theorem items_registered : lowering.registered.items = lowering.items := rfl

@[simp] theorem items_labelled : lowering.labelled.items = lowering.items := rfl

@[simp] theorem registers_emitted :
    (lowering.emitted instr).names.registers = lowering.names.registers := rfl

@[simp] theorem registers_opened :
    (lowering.opened label).names.registers = lowering.names.registers := rfl

@[simp] theorem registers_registered :
    lowering.registered.names.registers = lowering.names.registers + 1 := rfl

@[simp] theorem registers_labelled :
    lowering.labelled.names.registers = lowering.names.registers := rfl

@[simp] theorem labels_emitted :
    (lowering.emitted instr).names.labels = lowering.names.labels := rfl

@[simp] theorem labels_opened :
    (lowering.opened label).names.labels = lowering.names.labels := rfl

@[simp] theorem labels_registered :
    lowering.registered.names.labels = lowering.names.labels := rfl

@[simp] theorem labels_labelled :
    lowering.labelled.names.labels = lowering.names.labels + 1 := rfl

theorem run_emit : (emit instr).run lowering = .ok ((), lowering.emitted instr) := rfl

theorem run_openBlock : (openBlock label).run lowering = .ok ((), lowering.opened label) := rfl

theorem run_newRegister :
    newRegister.run lowering = .ok (lowering.names.registers + 1, lowering.registered) := rfl

theorem run_newLabel :
    newLabel.run lowering =
      .ok (.numbered (lowering.names.labels + 1), lowering.labelled) := rfl

theorem run_pure (result : α) :
    (pure result : LowerM α).run lowering = .ok (result, lowering) := rfl

theorem run_define (defining : Register -> Instr) :
    (define defining).run lowering =
      .ok (.register (lowering.names.registers + 1),
        lowering.registered.emitted (defining (lowering.names.registers + 1))) := rfl

end Updates

/-- A sequence of two steps goes through only if both do. -/
theorem exists_of_run_bind
    {step : LowerM α}
    {next : α -> LowerM β}
    {lowering final : Lowering}
    {result : β}
    (ran : (step >>= next).run lowering = .ok (result, final)) :
    ∃ value reached, step.run lowering = .ok (value, reached) ∧
      (next value).run reached = .ok (result, final) := by
  rw [StateT.run_bind] at ran
  obtain ⟨⟨value, reached⟩, first, second⟩ := exists_of_bind ran
  exact ⟨value, reached, first, second⟩

variable {context : Context} {lowering final : Lowering}

/-- Reading the type at a site changes nothing. -/
theorem typeAt?_of_run
    {site : Site}
    {type : ValueType}
    (ran : (typeAt context site).run lowering = .ok (type, final)) :
    context.typeAt? site = some type ∧ lowering = final := by
  unfold typeAt at ran
  unfold Context.typeAt?
  cases found : context.tags.get? site.id with
  | none =>
      rw [found] at ran
      cases ran
  | some tag =>
      rw [found] at ran
      cases tag with
      | value type =>
          cases ran
          exact ⟨rfl, rfl⟩
      | undeclared => cases ran
      | incalculable => cases ran

/-- Reading the type of an expression changes nothing. -/
theorem typeOf?_of_run
    {expression : Expr}
    {type : ValueType}
    (ran : (typeOf context expression).run lowering = .ok (type, final)) :
    context.typeOf? expression = some type ∧ lowering = final := by
  cases expression with
  | dangling number => cases ran
  | _ => exact typeAt?_of_run ran

/-- Reading the type of a slot changes nothing. -/
theorem lookup_of_run
    {name : String}
    {line : Line}
    {type : ValueType}
    (ran : (slotType context name line).run lowering = .ok (type, final)) :
    ∃ declaration, context.scope.lookup name = some declaration ∧ declaration.type = type ∧
      lowering = final := by
  unfold slotType at ran
  cases found : context.scope.lookup name with
  | none =>
      rw [found] at ran
      cases ran
  | some declaration =>
      rw [found] at ran
      cases ran
      exact ⟨declaration, rfl, rfl, rfl⟩

/-- Coercing an operand adds its code. -/
theorem coercionCode_of_run
    {value result : Operand}
    {type wanted : ValueType}
    (ran : (coerce value type wanted).run lowering = .ok (result, final)) :
    ∃ code, Adds lowering final code ∧ final.names.labels = lowering.names.labels ∧
      CoercionCode value type wanted lowering.names.registers code result
        final.names.registers := by
  unfold coerce at ran
  split at ran
  · next promotes =>
    obtain ⟨rfl, rfl⟩ := promotes
    rw [promote, run_define] at ran
    cases ran
    exact ⟨_, by simp [Adds], rfl, .promoted value _⟩
  · next fits =>
    cases ran
    exact ⟨[], by simp [Adds], rfl, .kept value _ fits⟩

/-- Applying a prefix operator adds its code. -/
theorem unaryCode_of_run
    {op : UnaryOp}
    {type : ValueType}
    {value result : Operand}
    {line : Line}
    (ran : (unary op type value line).run lowering = .ok (result, final)) :
    ∃ code, Adds lowering final code ∧ final.names.labels = lowering.names.labels ∧
      UnaryCode op type value lowering.names.registers code result final.names.registers := by
  have applied : ∀ defining : Register -> Instr,
      (define defining).run lowering = .ok (result, final) ->
      UnaryInstr value (lowering.names.registers + 1) op type
        (defining (lowering.names.registers + 1)) ->
      ∃ code, Adds lowering final code ∧ final.names.labels = lowering.names.labels ∧
        UnaryCode op type value lowering.names.registers code result final.names.registers := by
    intro defining defined lowered
    rw [run_define] at defined
    cases defined
    exact ⟨_, by simp [Adds], rfl, .applied lowered⟩
  have kept : (pure value : LowerM Operand).run lowering = .ok (result, final) ->
      IdentityCast op type ->
      ∃ code, Adds lowering final code ∧ final.names.labels = lowering.names.labels ∧
        UnaryCode op type value lowering.names.registers code result final.names.registers := by
    intro unchanged identity
    cases unchanged
    exact ⟨[], by simp [Adds], rfl, .kept value _ identity⟩
  unfold unary at ran
  split at ran
  · exact applied _ ran .negInt
  · exact applied _ ran .negDouble
  · exact applied _ ran .bitNot
  · exact applied _ ran .not
  · exact kept ran .int
  · exact applied _ ran .truncate
  · exact applied _ ran .extend
  · exact applied _ ran .promote
  · exact kept ran .double
  · cases ran

/-- Applying an infix operator adds the code of the coercions and the operation. -/
theorem binaryCode_of_run
    {op : BinaryOp}
    {leftType rightType resultType : ValueType}
    {left right result : Operand}
    {line : Line}
    (ran : (binary op leftType rightType resultType left right line).run lowering =
      .ok (result, final)) :
    ∃ type operation leftCoercion leftOperand registers rightCoercion rightOperand registers',
      commonType? leftType rightType = some type ∧ operation? op type = some operation ∧
      operation.resultType = resultType ∧
      CoercionCode left leftType type lowering.names.registers leftCoercion leftOperand registers ∧
      CoercionCode right rightType type registers rightCoercion rightOperand registers' ∧
      result = .register (registers' + 1) ∧ final.names.registers = registers' + 1 ∧
      final.names.labels = lowering.names.labels ∧
      Adds lowering final (leftCoercion ++ rightCoercion ++
        [.instr (.operate (registers' + 1) operation leftOperand rightOperand)]) := by
  unfold binary at ran
  cases common : commonType? leftType rightType with
  | none =>
      rw [common] at ran
      cases ran
  | some type =>
      simp only [common] at ran
      obtain ⟨leftOperand, reached, leftRan, ran⟩ := exists_of_run_bind ran
      obtain ⟨leftCoercion, leftAdds, leftLabels, leftCoerced⟩ := coercionCode_of_run leftRan
      obtain ⟨rightOperand, reached', rightRan, ran⟩ := exists_of_run_bind ran
      obtain ⟨rightCoercion, rightAdds, rightLabels, rightCoerced⟩ := coercionCode_of_run rightRan
      split at ran
      · cases ran
      · next operation lowered =>
        split at ran
        · next result_eq =>
          rw [run_define] at ran
          cases ran
          refine ⟨type, operation, leftCoercion, leftOperand, _, rightCoercion, rightOperand, _,
            rfl, lowered, result_eq, leftCoerced, rightCoerced, rfl, rfl, ?_, ?_⟩
          · simp [leftLabels, rightLabels]
          · simp only [Adds] at leftAdds rightAdds
            simp [Adds, leftAdds, rightAdds]
        · cases ran

/-- Assigning adds the code of the coercion and the store. -/
theorem assignCode_of_run
    {target : Target}
    {valueType : ValueType}
    {value result : Operand}
    (ran : (assign context target valueType value).run lowering = .ok (result, final)) :
    ∃ declaration coercion, context.scope.lookup target.name = some declaration ∧
      declaration.type.accepts valueType = true ∧
      CoercionCode value valueType declaration.type lowering.names.registers coercion result
        final.names.registers ∧
      final.names.labels = lowering.names.labels ∧
      Adds lowering final
        (coercion ++ [.instr (.store declaration.type result target.name)]) := by
  obtain ⟨type, reached, slotRan, ran⟩ := exists_of_run_bind ran
  obtain ⟨declaration, found, rfl, rfl⟩ := lookup_of_run slotRan
  split at ran
  · next accepts =>
    obtain ⟨stored, reached', coerceRan, ran⟩ := exists_of_run_bind ran
    obtain ⟨coercion, adds, labels_eq, coerced⟩ := coercionCode_of_run coerceRan
    rw [StateT.run_bind, run_emit, ok_bind, run_pure] at ran
    cases ran
    refine ⟨declaration, coercion, found, accepts, coerced, labels_eq, ?_⟩
    simp only [Adds] at adds
    simp [Adds, adds]
  · cases ran

/-- The two ways to leave for the end of a logical operator are one decision. -/
theorem run_decision
    (op : BinaryOp)
    (left : Operand)
    (joined right : Label)
    (next : Unit -> LowerM α)
    (lowering : Lowering) :
    (if shortValue op = true then emit (.fork left joined right) >>= next
      else emit (.fork left right joined) >>= next).run lowering =
    (next ()).run (lowering.emitted (decision op left joined right)) := by
  unfold decision
  split <;> rfl

/-- Generating an expression adds its code. -/
theorem exprCode_of_run
    (expression : Expr)
    {lowering final : Lowering}
    {result : Operand}
    (ran : (Lowering.expr context expression).run lowering = .ok (result, final)) :
    ∃ code, Adds lowering final code ∧
      ExprCode context expression lowering.names.registers lowering.names.labels code result
        final.names.registers final.names.labels := by
  induction expression generalizing lowering final result with
  | int site value =>
      obtain ⟨type, reached, typeRan, ran⟩ := exists_of_run_bind ran
      obtain ⟨tagged, rfl⟩ := typeAt?_of_run typeRan
      cases ran
      exact ⟨[], by simp [Adds], .int site value _ _ tagged⟩
  | double site bits =>
      obtain ⟨type, reached, typeRan, ran⟩ := exists_of_run_bind ran
      obtain ⟨tagged, rfl⟩ := typeAt?_of_run typeRan
      cases ran
      exact ⟨[], by simp [Adds], .double site bits _ _ tagged⟩
  | bool site value =>
      obtain ⟨type, reached, typeRan, ran⟩ := exists_of_run_bind ran
      obtain ⟨tagged, rfl⟩ := typeAt?_of_run typeRan
      cases ran
      exact ⟨[], by simp [Adds], .bool site value _ _ tagged⟩
  | name site spelling =>
      obtain ⟨type, reached, typeRan, ran⟩ := exists_of_run_bind ran
      obtain ⟨tagged, rfl⟩ := typeAt?_of_run typeRan
      obtain ⟨slot, reached, slotRan, ran⟩ := exists_of_run_bind ran
      obtain ⟨declaration, found, rfl, rfl⟩ := lookup_of_run slotRan
      rw [run_define] at ran
      cases ran
      exact ⟨_, by simp [Adds], .name site spelling _ _ tagged found⟩
  | unary site op operand inductionHypothesis =>
      obtain ⟨type, reached, typeRan, ran⟩ := exists_of_run_bind ran
      obtain ⟨tagged, rfl⟩ := typeAt?_of_run typeRan
      obtain ⟨operandType, reached, typeRan, ran⟩ := exists_of_run_bind ran
      obtain ⟨operandTagged, rfl⟩ := typeOf?_of_run typeRan
      obtain ⟨value, reached, operandRan, ran⟩ := exists_of_run_bind ran
      obtain ⟨code, adds, operandCode⟩ := inductionHypothesis () operandRan
      obtain ⟨applied, applied_adds, labels_eq, unaryCode⟩ := unaryCode_of_run ran
      refine ⟨code ++ applied, ?_, ?_⟩
      · simp only [Adds] at adds applied_adds
        simp [Adds, adds, applied_adds]
      · rw [labels_eq]
        exact .unary site op tagged operandTagged operandCode unaryCode
  | binary site op left right leftHypothesis rightHypothesis =>
      rw [Lowering.expr] at ran
      obtain ⟨resultType, reached, typeRan, ran⟩ := exists_of_run_bind ran
      obtain ⟨tagged, rfl⟩ := typeAt?_of_run typeRan
      obtain ⟨leftType, reached, typeRan, ran⟩ := exists_of_run_bind ran
      obtain ⟨leftTagged, rfl⟩ := typeOf?_of_run typeRan
      obtain ⟨rightType, reached, typeRan, ran⟩ := exists_of_run_bind ran
      obtain ⟨rightTagged, rfl⟩ := typeOf?_of_run typeRan
      split at ran
      · next logical =>
        split at ran
        · next both_bool =>
          obtain ⟨leftValue, reached, leftRan, ran⟩ := exists_of_run_bind ran
          obtain ⟨leftCode, leftAdds, leftEmitted⟩ := leftHypothesis () leftRan
          simp only [StateT.run_bind, run_newLabel, run_emit, run_openBlock, ok_bind,
            labels_labelled, labels_emitted, labels_opened, run_decision] at ran
          obtain ⟨⟨rightValue, reached'⟩, rightRan, ran⟩ := exists_of_bind ran
          obtain ⟨rightCode, rightAdds, rightEmitted⟩ := rightHypothesis () rightRan
          rw [run_define] at ran
          cases ran
          simp only [registers_labelled, registers_emitted, registers_opened, labels_labelled,
            labels_emitted, labels_opened] at rightEmitted
          refine ⟨_, ?_, .logical site op logical tagged (both_bool.1 ▸ leftTagged)
            (both_bool.2 ▸ rightTagged) leftEmitted rightEmitted⟩
          simp only [Adds] at leftAdds rightAdds
          simp [Adds, leftAdds, rightAdds, logicalOpening, logicalClosing]
        · obtain ⟨leftSite, reached, siteRan, ran⟩ := exists_of_run_bind ran
          cases ran
      · next plain =>
        obtain ⟨leftValue, reached, leftRan, ran⟩ := exists_of_run_bind ran
        obtain ⟨leftCode, leftAdds, leftEmitted⟩ := leftHypothesis () leftRan
        obtain ⟨rightValue, reached', rightRan, ran⟩ := exists_of_run_bind ran
        obtain ⟨rightCode, rightAdds, rightEmitted⟩ := rightHypothesis () rightRan
        obtain ⟨type, operation, leftCoercion, leftOperand, registers, rightCoercion, rightOperand,
          registers', common, lowered, result_eq, leftCoerced, rightCoerced, rfl, registers_eq,
          labels_eq, adds⟩ := binaryCode_of_run ran
        refine ⟨leftCode ++ rightCode ++ leftCoercion ++ rightCoercion ++
          [.instr (.operate (registers' + 1) operation leftOperand rightOperand)], ?_, ?_⟩
        · simp only [Adds] at leftAdds rightAdds adds
          simp [Adds, leftAdds, rightAdds, adds]
        · rw [registers_eq, labels_eq]
          exact .binary site op plain tagged leftTagged rightTagged leftEmitted rightEmitted common
            leftCoerced rightCoerced lowered result_eq
  | assign site target value inductionHypothesis =>
      obtain ⟨type, reached, typeRan, ran⟩ := exists_of_run_bind ran
      obtain ⟨tagged, rfl⟩ := typeAt?_of_run typeRan
      obtain ⟨valueType, reached, typeRan, ran⟩ := exists_of_run_bind ran
      obtain ⟨valueTagged, rfl⟩ := typeOf?_of_run typeRan
      obtain ⟨operand, reached, valueRan, ran⟩ := exists_of_run_bind ran
      obtain ⟨code, adds, valueCode⟩ := inductionHypothesis () valueRan
      obtain ⟨declaration, coercion, found, accepts, coerced, labels_eq, assign_adds⟩ :=
        assignCode_of_run ran
      refine ⟨code ++ coercion ++ [.instr (.store declaration.type result target.name)], ?_, ?_⟩
      · simp only [Adds] at adds assign_adds
        simp [Adds, adds, assign_adds]
      · rw [labels_eq]
        exact .assign site target tagged valueTagged valueCode found accepts coerced
  | dangling number => cases ran

/-- Printing an operand adds its code. -/
theorem printCode_of_run
    {format : Format}
    {type : ValueType}
    {value : Operand}
    {line : Line}
    (ran : (print format type value line).run lowering = .ok ((), final)) :
    ∃ code, Adds lowering final code ∧ final.names.labels = lowering.names.labels ∧
      PrintCode value lowering.names.registers format type code final.names.registers := by
  unfold print at ran
  split at ran
  · rw [run_emit] at ran
    cases ran
    exact ⟨_, by simp [Adds], rfl, .int⟩
  · rw [run_emit] at ran
    cases ran
    exact ⟨_, by simp [Adds], rfl, .hex⟩
  · rw [run_emit] at ran
    cases ran
    exact ⟨_, by simp [Adds], rfl, .double⟩
  · simp only [StateT.run_bind, run_newRegister, run_emit, ok_bind] at ran
    cases ran
    exact ⟨_, by simp [Adds], rfl, .bool⟩
  · cases ran

/-- Scanning into a variable adds one instruction. -/
theorem scanCode_of_run
    {target : Target}
    {format : Format}
    (ran : (scan context target format).run lowering = .ok ((), final)) :
    ∃ declaration template, context.scope.lookup target.name = some declaration ∧
      ScanTemplate format declaration.type template ∧
      final = lowering.emitted (.scan template target.name) := by
  obtain ⟨type, reached, slotRan, ran⟩ := exists_of_run_bind ran
  obtain ⟨declaration, found, type_eq, rfl⟩ := lookup_of_run slotRan
  subst type_eq
  refine ⟨declaration, ?_⟩
  generalize declaration.type = type at ran
  split at ran
  · cases ran
    exact ⟨_, found, .int, rfl⟩
  · cases ran
    exact ⟨_, found, .hex, rfl⟩
  · cases ran
    exact ⟨_, found, .double, rfl⟩
  · cases ran

/-- Generating a statement adds its code. -/
theorem stmtCode_of_run
    (statement : Stmt)
    {lowering final : Lowering}
    (ran : (Lowering.stmt context statement).run lowering = .ok ((), final)) :
    ∃ code, Adds lowering final code ∧
      StmtCode context statement lowering.names.registers lowering.names.labels code
        final.names.registers final.names.labels := by
  induction statement generalizing lowering final with
  | done =>
      cases ran
      exact ⟨[], by simp [Adds], .done _ _⟩
  | seq first rest firstHypothesis restHypothesis =>
      obtain ⟨_, reached, firstRan, ran⟩ := exists_of_run_bind ran
      obtain ⟨firstCode, firstAdds, firstEmitted⟩ := firstHypothesis firstRan
      obtain ⟨restCode, restAdds, restEmitted⟩ := restHypothesis ran
      refine ⟨firstCode ++ restCode, ?_, .seq firstEmitted restEmitted⟩
      simp only [Adds] at firstAdds restAdds
      simp [Adds, firstAdds, restAdds]
  | block line body inductionHypothesis =>
      obtain ⟨code, adds, emitted⟩ := inductionHypothesis () ran
      exact ⟨code, adds, .block line emitted⟩
  | expr line value =>
      obtain ⟨operand, reached, valueRan, ran⟩ := exists_of_run_bind ran
      cases ran
      obtain ⟨code, adds, emitted⟩ := exprCode_of_run value valueRan
      exact ⟨code, adds, .expr line emitted⟩
  | branch line condition yes no yesHypothesis noHypothesis =>
      rw [Lowering.stmt] at ran
      obtain ⟨test, reached, testRan, ran⟩ := exists_of_run_bind ran
      obtain ⟨testCode, testAdds, testEmitted⟩ := exprCode_of_run condition testRan
      simp only [StateT.run_bind, run_newLabel, run_emit, run_openBlock, ok_bind,
        labels_labelled] at ran
      obtain ⟨⟨_, reached'⟩, yesRan, ran⟩ := exists_of_bind ran
      obtain ⟨yesCode, yesAdds, yesEmitted⟩ := yesHypothesis () yesRan
      obtain ⟨⟨_, reached''⟩, noRan, ran⟩ := exists_of_bind ran
      obtain ⟨noCode, noAdds, noEmitted⟩ := noHypothesis () noRan
      cases ran
      simp only [registers_labelled, registers_emitted, registers_opened, labels_labelled,
        labels_emitted, labels_opened] at yesEmitted noEmitted
      refine ⟨_, ?_, .branch line testEmitted yesEmitted noEmitted⟩
      simp only [Adds] at testAdds yesAdds noAdds
      simp [Adds, testAdds, yesAdds, noAdds]
  | loop line condition body inductionHypothesis =>
      rw [Lowering.stmt] at ran
      simp only [StateT.run_bind, run_newLabel, run_emit, run_openBlock, ok_bind,
        labels_labelled] at ran
      obtain ⟨⟨test, reached⟩, testRan, ran⟩ := exists_of_bind ran
      obtain ⟨testCode, testAdds, testEmitted⟩ := exprCode_of_run condition testRan
      obtain ⟨⟨_, reached'⟩, bodyRan, ran⟩ := exists_of_bind ran
      obtain ⟨bodyCode, bodyAdds, bodyEmitted⟩ := inductionHypothesis () bodyRan
      cases ran
      simp only [registers_labelled, registers_emitted, registers_opened, labels_labelled,
        labels_emitted, labels_opened] at testEmitted bodyEmitted
      refine ⟨_, ?_, .loop line testEmitted bodyEmitted⟩
      simp only [Adds] at testAdds bodyAdds
      simp [Adds, testAdds, bodyAdds]
  | write line value format =>
      obtain ⟨type, reached, typeRan, ran⟩ := exists_of_run_bind ran
      obtain ⟨tagged, rfl⟩ := typeOf?_of_run typeRan
      obtain ⟨operand, reached, valueRan, ran⟩ := exists_of_run_bind ran
      obtain ⟨code, adds, emitted⟩ := exprCode_of_run value valueRan
      obtain ⟨printed, print_adds, labels_eq, print⟩ := printCode_of_run ran
      refine ⟨code ++ printed, ?_, ?_⟩
      · simp only [Adds] at adds print_adds
        simp [Adds, adds, print_adds]
      · rw [labels_eq]
        exact .write line tagged emitted print
  | writeText line number =>
      rw [Lowering.stmt] at ran
      split at ran
      · next constant found =>
        rw [run_emit] at ran
        cases ran
        exact ⟨_, by rw [Adds, items_emitted], .writeText line _ _ found⟩
      · cases ran
  | read line target format =>
      obtain ⟨declaration, template, found, scan, rfl⟩ := scanCode_of_run ran
      exact ⟨_, by rw [Adds, items_emitted], .read line _ _ found scan⟩
  | leave line =>
      rw [Lowering.stmt] at ran
      simp only [StateT.run_bind, run_newLabel, run_emit, run_openBlock, ok_bind] at ran
      cases ran
      exact ⟨_, by simp [Adds], .leave line _ _⟩
  | dangling number => cases ran

end Lowering

/-- The instructions that reserve the slots of the variables. -/
def Scope.slots (scope : Scope) : List Item :=
  scope.entries.toList.map fun declaration =>
    .instr (.alloca declaration.name declaration.type)

/-- What the generator knows about a program whose expressions have the given tags. -/
def Program.context (program : Program) (tags : TagTable) : Lowering.Context :=
  ⟨program.scope, tags, program.forest.texts⟩

/-- Generating code is running the generator on the tree and reading off the emitted lines. -/
theorem Program.generate_eq
    (program : Program)
    (tags : TagTable) :
    program.generate tags =
      ((Lowering.routine (program.context tags) program.tree).run
        (Lowering.atEntry program.scope)).map fun reached =>
          ⟨program.forest.texts.toList, reached.2.items.toList⟩ := by
  unfold Program.generate
  dsimp only [Program.context]
  generalize StateT.run _ (Lowering.atEntry program.scope) = outcome
  cases outcome <;> rfl

/-- A generated routine is the entry block with the slots of the variables, the code of the body and
the instruction that leaves the routine. -/
theorem Program.stmtCode_of_generate
    {program : Program}
    {tags : TagTable}
    {code : CodeModule}
    (generated : program.generate tags = .ok code) :
    ∃ body registers labels,
      Lowering.StmtCode (program.context tags) program.tree 0 0 body registers labels ∧
      code.items = .label .entry :: program.scope.slots ++ body ++ [.instr .ret] ∧
      code.texts = program.forest.texts.toList := by
  rw [Program.generate_eq] at generated
  cases ran : (Lowering.routine (program.context tags) program.tree).run
      (Lowering.atEntry program.scope) with
  | error error =>
      rw [ran] at generated
      cases generated
  | ok pair =>
      obtain ⟨result, reached⟩ := pair
      rw [ran] at generated
      cases generated
      obtain ⟨_, between, bodyRan, ran⟩ := Lowering.exists_of_run_bind ran
      obtain ⟨body, adds, emitted⟩ := Lowering.stmtCode_of_run program.tree bodyRan
      cases ran
      refine ⟨body, _, _, emitted, ?_, rfl⟩
      simp only [Lowering.Adds] at adds
      change (between.emitted .ret).items.toList = _
      simp [adds, Lowering.atEntry, Scope.slots]

end MiniLang
