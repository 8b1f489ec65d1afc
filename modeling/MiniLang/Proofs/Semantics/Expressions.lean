import MiniLang.Proofs.Code.Agreement
import MiniLang.Proofs.Semantics.Soundness
import MiniLang.Proofs.Semantics.Stretches

/-!
# The code of expressions

The code of a typed expression takes the machine to the line after it, where the operand of the
expression has its value and the slots hold what the variables do; if the expression has no value,
the machine is blocked.  Registers that were given before keep what they hold, so that the left
operand of an operator is still there when the right one has been evaluated.
-/

namespace MiniLang

/-- An operand is no register beyond those that have been given. -/
def Operand.Below (registers : Nat) (operand : Operand) : Prop :=
  ∀ register ∈ operand.registers, register ≤ registers

namespace Operand.Below

variable {operand : Operand} {registers registers' : Nat}

theorem mono
    (below : operand.Below registers)
    (registers_le : registers ≤ registers') :
    operand.Below registers' :=
  fun register used => Nat.le_trans (below register used) registers_le

/-- An operand keeps its value if the registers that have been given do. -/
theorem value?_eq
    {file file' : RegisterFile}
    (below : operand.Below registers)
    (kept : ∀ register ≤ registers, file' register = file register) :
    operand.value? file' = operand.value? file := by
  cases operand with
  | register number =>
      have given : number ≤ registers := below number (by simp [Operand.registers])
      rw [Operand.value?, Operand.value?, kept number given]
  | _ => rfl

end Operand.Below

namespace Lowering

variable {context : Context} {registers labels registers' labels' : Nat}

theorem Straight.operand_below
    {value operand : Operand}
    {lines : List Item}
    (straight : Straight value registers lines operand registers')
    (below : value.Below registers) :
    operand.Below registers' := by
  cases straight with
  | kept => exact below
  | computed => simp [Operand.Below, Operand.registers]

/-- The operand of an expression is a register that has been given, or none. -/
theorem ExprCode.operand_below
    {expression : Expr}
    {lines : List Item}
    {operand : Operand}
    (emitted : ExprCode context expression registers labels lines operand registers' labels') :
    operand.Below registers' := by
  induction emitted with
  | int | double | bool => simp [Operand.Below, Operand.registers]
  | name | binary | logical => simp [Operand.Below, Operand.registers]
  | assign site target tagged valueTagged valueCode found accepts coerced inductionHypothesis =>
      exact coerced.straight.operand_below inductionHypothesis
  | unary site op tagged operandTagged operandCode unaryCode inductionHypothesis =>
      exact unaryCode.straight.operand_below inductionHypothesis

end Lowering

namespace Machine

/-- The machine has come through the code of an expression: it is at the lines after it, the
operand has the value, the slots hold what the variables do, and nothing was read or written. -/
structure Delivers (before : Machine) (registers : Nat) (post : List Item) (operand : Operand)
    (outcome : Value × Store) (after : Machine) : Prop where
  rest_eq : after.rest = post
  value_eq : operand.value? after.registers = some outcome.1
  world_eq : after.world = { before.world with store := outcome.2 }
  kept : ∀ register ≤ registers, after.registers register = before.registers register

namespace Delivers

variable {before middle after : Machine} {registers registers' : Nat} {between post : List Item}
  {operand operand' : Operand} {outcome outcome' : Value × Store}

theorem refl
    {value : Value}
    (rest_eq : before.rest = post)
    (value_eq : operand.value? before.registers = some value) :
    before.Delivers registers post operand (value, before.world.store) before where
  rest_eq := rest_eq
  value_eq := value_eq
  world_eq := rfl
  kept _ _ := rfl

theorem trans
    (first : before.Delivers registers between operand outcome middle)
    (registers_le : registers ≤ registers')
    (second : middle.Delivers registers' post operand' outcome' after) :
    before.Delivers registers post operand' outcome' after where
  rest_eq := second.rest_eq
  value_eq := second.value_eq
  world_eq := by rw [second.world_eq, first.world_eq]
  kept register given := by
    rw [second.kept register (Nat.le_trans given registers_le), first.kept register given]

/-- Jumps change neither the registers nor the world. -/
theorem of_eq
    (registers_eq : middle.registers = before.registers)
    (world_eq : middle.world = before.world)
    (there : middle.Delivers registers post operand outcome after) :
    before.Delivers registers post operand outcome after where
  rest_eq := there.rest_eq
  value_eq := there.value_eq
  world_eq := by rw [there.world_eq, world_eq]
  kept := by rw [← registers_eq]; exact there.kept

end Delivers

variable {env : Environment} {code : CodeModule} {machine : Machine} {post : List Item}
  {registers : Nat}

/-- Follow an instruction that defines the next register. -/
theorem Follows.define
    {instr : Instr}
    {result : Option Value}
    (rest_eq : machine.rest = .instr instr :: post)
    (stays : instr ≠ .ret)
    (exec_eq : exec env code { machine with rest := post } instr =
      result.map fun value =>
        { machine with rest := post }.define (registers + 1) (.value value)) :
    machine.Follows env code (result.map fun value => (value, machine.world.store))
      (machine.Delivers registers post (.register (registers + 1))) := by
  have follows : machine.Follows env code result fun value after =>
      machine.Delivers registers post (.register (registers + 1)) (value, machine.world.store)
        after := by
    apply Follows.instr _ rest_eq stays exec_eq
    intro value given
    refine ⟨rfl, by simp [Machine.define, Operand.value?], rfl, ?_⟩
    intro register register_le
    have other : register ≠ registers + 1 := by omega
    simp [Machine.define, other]
  cases result <;> exact follows

/-- Follow a typed expression, and from where it has its value follow the rest. -/
theorem Follows.andThenValue
    {α : Type}
    {scope : Scope}
    {expression : Expr}
    {type : ValueType}
    {operand : Operand}
    {final : Option α}
    {arrived : α -> Machine -> Prop}
    (follows : machine.Follows env code (expression.eval env machine.world.store)
      (machine.Delivers registers post operand))
    (typed : expression.HasType scope type)
    (conforms : machine.world.store.Conforms scope)
    (failed : expression.eval env machine.world.store = none -> final = none)
    (next : ∀ given (middle : Machine),
      expression.eval env machine.world.store = some (given, middle.world.store) ->
      given.type = type -> middle.world.store.Conforms scope ->
      machine.Delivers registers post operand (given, middle.world.store) middle ->
      middle.Follows env code final arrived) :
    machine.Follows env code final arrived := by
  apply follows.andThen failed
  rintro ⟨given, store⟩ middle evaluated there
  obtain rfl : middle.world.store = store := by rw [there.world_eq]
  obtain ⟨givenTyped, middleConforms⟩ := typed.eval_sound conforms evaluated
  exact next given middle evaluated givenTyped middleConforms there

end Machine

namespace Lowering

open Machine

variable {env : Environment} {code : CodeModule} {context : Context} {machine : Machine}
  {lines post : List Item} {registers labels registers' labels' : Nat}

/-- Bringing an operand to the type of a variable or an operation widens its value. -/
theorem CoercionCode.follows
    (env : Environment)
    (code : CodeModule)
    {type wanted : ValueType}
    {operand result : Operand}
    {given stored : Value}
    (coerced : CoercionCode operand type wanted registers lines result registers')
    (typed : given.type = type)
    (widened : given.widen? env wanted = some stored)
    (rest_eq : machine.rest = lines ++ post)
    (held : operand.value? machine.registers = some given) :
    machine.Follows env code (some (stored, machine.world.store))
      (machine.Delivers registers post result) := by
  cases coerced with
  | promoted =>
      have converted : Conversion.apply env .sitofp given = some stored := by
        cases given with
        | int value => exact widened
        | _ => cases typed
      change machine.Follows env code ((some stored).map fun value => (value, _)) _
      apply Follows.define rest_eq (by simp)
      simp [exec, held, converted]
  | kept _ fits =>
      have stored_eq : stored = given := by
        subst typed
        cases given <;> cases wanted <;> simp_all [Value.widen?, Value.type]
      subst stored_eq
      exact ⟨machine, .refl machine, .refl rest_eq held⟩

/-- Storing an operand in the slot of a variable, after the code of the operand. -/
theorem follows_store
    {before : Machine}
    {name : String}
    {type : ValueType}
    {operand : Operand}
    {store : Store}
    {held stored : Value}
    (there : before.Delivers registers (.instr (.store type operand name) :: post) operand
      (stored, store) machine)
    (holds : store name = some held)
    (heldTyped : held.type = type)
    (storedTyped : stored.type = type) :
    machine.Follows env code (some (stored, store.set name stored))
      (before.Delivers registers post operand) := by
  have store_eq : machine.world.store = store := by rw [there.world_eq]
  apply Follows.instr (fun _ => { machine with rest := post }.hold name stored) there.rest_eq
    (by simp)
  · simp [exec, there.value_eq, store_eq, holds, heldTyped, storedTyped]
  · rintro outcome ⟨⟩
    refine ⟨rfl, there.value_eq, ?_, there.kept⟩
    simp [Machine.hold, there.world_eq]

/-- The code of a prefix operator applies it. -/
theorem UnaryCode.follows
    {op : UnaryOp}
    {type : ValueType}
    {operand result : Operand}
    {given : Value}
    (unaryCode : UnaryCode op type operand registers lines result registers')
    (typed : given.type = type)
    (rest_eq : machine.rest = lines ++ post)
    (held : operand.value? machine.registers = some given) :
    machine.Follows env code
      ((op.apply env given).map fun value => (value, machine.world.store))
      (machine.Delivers registers post result) := by
  cases unaryCode with
  | applied lowered =>
      apply Follows.define rest_eq
      · cases lowered <;> simp
      · cases lowered <;> cases given <;> cases typed <;>
          simp [exec, held, UnaryOp.apply, Operation.apply, Calculation.onInts,
            Calculation.onBools, Conversion.apply]
  | kept identity =>
      have kept : op.apply env given = some given := by
        cases identity <;> cases given <;> cases typed <;> rfl
      rw [kept]
      exact ⟨machine, .refl machine, .refl rest_eq held⟩

/-- The operation of an infix operator on widened operands is the operator. -/
theorem exists_widen_of_operation
    (env : Environment)
    {op : BinaryOp}
    {left right : Value}
    {type : ValueType}
    {operation : Operation}
    (common : commonType? left.type right.type = some type)
    (lowered : operation? op type = some operation) :
    ∃ first second, left.widen? env type = some first ∧ right.widen? env type = some second ∧
      operation.apply env first second = op.apply env left right := by
  cases left <;> cases right <;>
    simp [commonType?, Value.type, ValueType.isNumeric] at common <;> subst common <;>
    cases op <;> cases lowered <;> exact ⟨_, _, rfl, rfl, rfl⟩

/-- No operand decides an operator that evaluates both of its operands. -/
theorem decided?_eq_none
    {op : BinaryOp}
    (plain : op.family ≠ .logical)
    (value : Value) :
    op.decided? value = none := by
  cases op <;> first | rfl | exact absurd rfl plain

/-- The code of an infix operator that evaluates both of its operands, after theirs. -/
theorem follows_operation
    {op : BinaryOp}
    {type : ValueType}
    {operation : Operation}
    {left right leftOperand rightOperand : Operand}
    {first second : Value}
    {leftLines rightLines : List Item}
    {registers₁ registers₂ : Nat}
    (common : commonType? first.type second.type = some type)
    (lowered : operation? op type = some operation)
    (leftCoerced : CoercionCode left first.type type registers leftLines leftOperand registers₁)
    (rightCoerced : CoercionCode right second.type type registers₁ rightLines rightOperand
      registers₂)
    (leftBelow : left.Below registers)
    (rightBelow : right.Below registers)
    (rest_eq : machine.rest = leftLines ++ rightLines ++
      [.instr (.operate (registers₂ + 1) operation leftOperand rightOperand)] ++ post)
    (leftHeld : left.value? machine.registers = some first)
    (rightHeld : right.value? machine.registers = some second) :
    machine.Follows env code
      ((op.apply env first second).map fun value => (value, machine.world.store))
      (machine.Delivers registers post (.register (registers₂ + 1))) := by
  obtain ⟨first', second', firstWidened, secondWidened, applied⟩ :=
    exists_widen_of_operation env common lowered
  have registers_le := leftCoerced.straight.passage.registers_le
  have registers_le₁ := rightCoerced.straight.passage.registers_le
  -- The left operand is widened first, the right one is still below the registers given then.
  apply (leftCoerced.follows env code rfl firstWidened
    (by simpa using rest_eq) leftHeld).andThen (fun failed => by cases failed)
  rintro ⟨_, _⟩ middle ⟨⟩ leftThere
  have rightHeld' : right.value? middle.registers = some second := by
    rw [rightBelow.value?_eq leftThere.kept, rightHeld]
  apply (rightCoerced.follows env code rfl secondWidened leftThere.rest_eq
    rightHeld').andThen (fun failed => by cases failed)
  rintro ⟨_, _⟩ last ⟨⟩ rightThere
  have leftHeld' : leftOperand.value? last.registers = some first' := by
    rw [(leftCoerced.straight.operand_below leftBelow).value?_eq rightThere.kept,
      leftThere.value_eq]
  have store_eq : last.world.store = machine.world.store := by
    rw [rightThere.world_eq, leftThere.world_eq]
  rw [← store_eq]
  have operated : last.Follows env code
      ((op.apply env first second).map fun value => (value, last.world.store))
      (last.Delivers registers₂ post (.register (registers₂ + 1))) := by
    apply Follows.define rightThere.rest_eq (by simp)
    simp only [exec, leftHeld', rightThere.value_eq, applied, Option.bind_eq_bind,
      Option.bind_some]
    cases op.apply env first second <;> rfl
  apply operated.imp
  intro outcome after there
  exact leftThere.trans registers_le (rightThere.trans registers_le₁ there)

section Logical

variable {op : BinaryOp} {left right : Operand} {rightLines : List Item}

/-- A block that decides goes to the end if the left operand does decide. -/
theorem exists_step_decided
    {joined rightStart : Label}
    (rest_eq : machine.rest = .instr (decision op left joined rightStart) :: post)
    (held : left.value? machine.registers = some (.bool (shortValue op)))
    (found : Item.after? joined code.items = some lines) :
    ∃ after, machine.step env code = some after ∧ machine.Enters joined lines after := by
  unfold decision at rest_eq
  cases short : shortValue op <;> rw [short] at rest_eq held <;>
    exact exists_fork rest_eq held found

/-- A block that decides goes to the right operand if the left one does not decide. -/
theorem exists_step_undecided
    {joined rightStart : Label}
    (rest_eq : machine.rest = .instr (decision op left joined rightStart) :: post)
    (held : left.value? machine.registers = some (.bool !shortValue op))
    (found : Item.after? rightStart code.items = some lines) :
    ∃ after, machine.step env code = some after ∧ machine.Enters rightStart lines after := by
  unfold decision at rest_eq
  cases short : shortValue op <;> rw [short] at rest_eq held <;>
    exact exists_fork rest_eq held found

/-- Where the blocks of a logical operator are found. -/
structure LogicalBlocks (code : CodeModule) (op : BinaryOp) (left right : Operand)
    (rightLines : List Item) (registers labels : Nat) (post : List Item) : Prop where
  start : Item.after? (.numbered (labels + 1)) code.items =
    some (.instr (decision op left (.numbered (labels + 4)) (.numbered (labels + 2))) ::
      .label (.numbered (labels + 2)) ::
      (rightLines ++ logicalClosing op right registers labels ++ post))
  rightStart : Item.after? (.numbered (labels + 2)) code.items =
    some (rightLines ++ logicalClosing op right registers labels ++ post)
  rightEnd : Item.after? (.numbered (labels + 3)) code.items =
    some ((logicalClosing op right registers labels).drop 2 ++ post)
  joined : Item.after? (.numbered (labels + 4)) code.items =
    some ((logicalClosing op right registers labels).drop 4 ++ post)

theorem logicalBlocks_of_placed
    (distinct : code.Distinct)
    (placed : code.Placed (logicalOpening op left labels ++ rightLines ++
      logicalClosing op right registers labels) post) :
    LogicalBlocks code op left right rightLines registers labels post := by
  obtain ⟨before, items_eq⟩ := placed
  constructor
  · apply distinct.after?_eq (before ++ (logicalOpening op left labels).take 1)
    simp [items_eq, logicalOpening]
  · apply distinct.after?_eq (before ++ (logicalOpening op left labels).take 3)
    simp [items_eq, logicalOpening]
  · apply distinct.after?_eq (before ++ logicalOpening op left labels ++ rightLines ++
      (logicalClosing op right registers labels).take 1)
    simp [items_eq, logicalClosing]
  · apply distinct.after?_eq (before ++ logicalOpening op left labels ++ rightLines ++
      (logicalClosing op right registers labels).take 3)
    simp [items_eq, logicalClosing]

/-- Where the two ways through a logical operator meet, the result is the value that belongs to the
way taken. -/
theorem follows_joining
    {origin : Label}
    {truth : Bool}
    (rest_eq : machine.rest = (logicalClosing op right registers labels).drop 4 ++ post)
    (origin_eq : machine.origin = some origin)
    (taken : origin = .numbered (labels + 1) ∧ truth = shortValue op ∨
      origin = .numbered (labels + 3) ∧ right.value? machine.registers = some (.bool truth)) :
    machine.Follows env code (some (.bool truth, machine.world.store))
      (machine.Delivers registers post (.register (registers + 1))) := by
  change machine.Follows env code ((some (Value.bool truth)).map fun value => (value, _)) _
  apply Follows.define rest_eq (by simp)
  rcases taken with ⟨rfl, rfl⟩ | ⟨rfl, held⟩
  · simp [exec, origin_eq, Value.type]
  · simp [exec, origin_eq, held, Value.type]

namespace LogicalBlocks

variable (blocks : LogicalBlocks code op left right rightLines registers labels post)
include blocks

/-- A left operand that decides gives the result. -/
theorem decided
    (rest_eq : machine.rest = logicalOpening op left labels ++ lines)
    (held : left.value? machine.registers = some (.bool (shortValue op))) :
    machine.Follows env code (some (.bool (shortValue op), machine.world.store))
      (machine.Delivers registers post (.register (registers + 1))) := by
  obtain ⟨decides, started, entered⟩ := exists_jump rest_eq blocks.start
  rw [← entered.registers_eq] at held
  obtain ⟨joins, went, joined⟩ := exists_step_decided entered.rest_eq held blocks.joined
  apply Follows.of_reaches ((Reaches.of_step started).trans (.of_step went))
  rw [← entered.world_eq, ← joined.world_eq]
  apply (follows_joining joined.rest_eq joined.origin_eq (.inl ⟨entered.block_eq, rfl⟩)).imp
  intro outcome after there
  exact (there.of_eq joined.registers_eq joined.world_eq).of_eq entered.registers_eq
    entered.world_eq

/-- A left operand that does not decide leads to the right one. -/
theorem undecided
    (rest_eq : machine.rest = logicalOpening op left labels ++ lines)
    (held : left.value? machine.registers = some (.bool !shortValue op)) :
    ∃ after, machine.Reaches env code after ∧
      after.rest = rightLines ++ (logicalClosing op right registers labels ++ post) ∧
      after.registers = machine.registers ∧ after.world = machine.world := by
  obtain ⟨decides, started, entered⟩ := exists_jump rest_eq blocks.start
  rw [← entered.registers_eq] at held
  obtain ⟨after, went, there⟩ := exists_step_undecided entered.rest_eq held blocks.rightStart
  refine ⟨after, (Reaches.of_step started).trans (.of_step went), ?_, ?_, ?_⟩
  · rw [there.rest_eq, List.append_assoc]
  · rw [there.registers_eq, entered.registers_eq]
  · rw [there.world_eq, entered.world_eq]

/-- The right operand gives the result if the left one did not. -/
theorem closed
    {truth : Bool}
    (rest_eq : machine.rest = logicalClosing op right registers labels ++ post)
    (held : right.value? machine.registers = some (.bool truth)) :
    machine.Follows env code (some (.bool truth, machine.world.store))
      (machine.Delivers registers post (.register (registers + 1))) := by
  obtain ⟨ends, ended, entered⟩ := exists_jump rest_eq blocks.rightEnd
  obtain ⟨joins, went, joined⟩ := exists_jump entered.rest_eq blocks.joined
  rw [← entered.registers_eq, ← joined.registers_eq] at held
  apply Follows.of_reaches ((Reaches.of_step ended).trans (.of_step went))
  rw [← entered.world_eq, ← joined.world_eq]
  apply (follows_joining joined.rest_eq joined.origin_eq (.inr ⟨entered.block_eq, held⟩)).imp
  intro outcome after there
  exact (there.of_eq joined.registers_eq joined.world_eq).of_eq entered.registers_eq
    entered.world_eq

end LogicalBlocks

end Logical

/-- A value of the type of truth values is one. -/
theorem exists_truth
    {value : Value}
    (typed : value.type = .bool) :
    ∃ truth, value = .bool truth := by
  cases value with
  | bool truth => exact ⟨truth, rfl⟩
  | _ => cases typed

/-- A logical operator takes the value of its left operand if that decides, and that of its right
operand otherwise. -/
theorem logical_apply
    (env : Environment)
    {op : BinaryOp}
    (logical : op.family = .logical) :
    op.decided? (.bool (shortValue op)) = some (.bool (shortValue op)) ∧
      op.decided? (.bool !shortValue op) = none ∧
      ∀ truth, op.apply env (.bool !shortValue op) (.bool truth) = some (.bool truth) := by
  cases op <;> cases logical <;> exact ⟨rfl, rfl, fun truth => rfl⟩

/-- The machine follows the code of a typed expression to its value. -/
theorem ExprCode.follows
    (distinct : code.Distinct)
    {expression : Expr}
    {operand : Operand}
    (emitted : ExprCode context expression registers labels lines operand registers' labels') :
    ∀ {type : ValueType} {post : List Item} {machine : Machine},
      context.Checks expression type ->
      code.Placed lines post ->
      machine.rest = lines ++ post ->
      machine.world.store.Conforms context.scope ->
      machine.Follows env code (expression.eval env machine.world.store)
        (machine.Delivers registers post operand) := by
  induction emitted with
  | int site value registers labels tagged =>
      intro type post machine checks placed rest_eq conforms
      exact ⟨machine, .refl machine, .refl rest_eq rfl⟩
  | double site bits registers labels tagged =>
      intro type post machine checks placed rest_eq conforms
      exact ⟨machine, .refl machine, .refl rest_eq rfl⟩
  | bool site value registers labels tagged =>
      intro type post machine checks placed rest_eq conforms
      exact ⟨machine, .refl machine, .refl rest_eq rfl⟩
  | name site spelling registers labels tagged found =>
      intro type post machine checks placed rest_eq conforms
      obtain ⟨held, holds, sameType⟩ := conforms.exists_held found
      apply Follows.define rest_eq (by simp)
      simp [exec, holds, sameType]
  | assign site target tagged valueTagged valueCode found accepts coerced inductionHypothesis =>
      intro type post machine checks placed rest_eq conforms
      have valueChecks := checks.value valueTagged
      apply (inductionHypothesis valueChecks placed.left.left (by simpa using rest_eq)
        conforms).andThenValue valueChecks.typed conforms
      · intro failed
        simp [Expr.eval, failed]
      intro given middle evaluated givenTyped middleConforms there
      obtain ⟨held, holds, heldTyped⟩ := middleConforms.exists_held found
      obtain ⟨stored, widened, storedTyped⟩ :=
        (ValueType.accepts_iff.mp accepts).exists_widen env givenTyped
      rw [Expr.eval_assign evaluated holds (by rw [heldTyped, widened])]
      apply (coerced.follows env code givenTyped widened there.rest_eq there.value_eq).andThen
        (fun failed => by cases failed)
      rintro ⟨_, _⟩ last ⟨⟩ lastThere
      exact follows_store (there.trans valueCode.passage.registers_le lastThere) holds heldTyped
        storedTyped
  | unary site op tagged operandTagged operandCode unaryCode inductionHypothesis =>
      intro type post machine checks placed rest_eq conforms
      have operandChecks := checks.operand operandTagged
      apply (inductionHypothesis operandChecks placed.left (by simpa using rest_eq)
        conforms).andThenValue operandChecks.typed conforms
      · intro failed
        simp [Expr.eval, failed]
      intro given middle evaluated givenTyped _ there
      rw [Expr.eval_unary evaluated]
      apply (unaryCode.follows givenTyped there.rest_eq there.value_eq).imp
      intro outcome after
      exact there.trans operandCode.passage.registers_le
  | binary site op plain tagged leftTagged rightTagged leftEmitted rightEmitted common leftCoerced
      rightCoerced lowered result_eq leftHypothesis rightHypothesis =>
      intro type post machine checks placed rest_eq conforms
      obtain ⟨leftChecks, rightChecks⟩ := checks.operands leftTagged rightTagged
      have registers_le := leftEmitted.passage.registers_le
      have registers_le₁ := rightEmitted.passage.registers_le
      apply (leftHypothesis leftChecks placed.left.left.left.left (by simpa using rest_eq)
        conforms).andThenValue leftChecks.typed conforms
      · intro failed
        simp [Expr.eval, failed]
      rintro first middle leftEvaluated rfl leftConforms leftThere
      apply (rightHypothesis rightChecks placed.left.left.left.right leftThere.rest_eq
        leftConforms).andThenValue rightChecks.typed leftConforms
      · intro failed
        simp [Expr.eval, leftEvaluated, decided?_eq_none plain, failed]
      rintro second last rightEvaluated rfl _ rightThere
      rw [Expr.eval_undecided leftEvaluated (decided?_eq_none plain first) rightEvaluated]
      -- The register of the left operand was given before the code of the right one.
      have leftHeld := leftEmitted.operand_below.value?_eq rightThere.kept
      apply (follows_operation common lowered leftCoerced rightCoerced
        (leftEmitted.operand_below.mono registers_le₁) rightEmitted.operand_below
        (by simpa using rightThere.rest_eq) (leftHeld.trans leftThere.value_eq)
        rightThere.value_eq).imp
      intro outcome after there
      exact leftThere.trans registers_le (rightThere.trans registers_le₁ there)
  | logical site op logical tagged leftTagged rightTagged leftEmitted rightEmitted leftHypothesis
      rightHypothesis =>
      intro type post machine checks placed rest_eq conforms
      obtain ⟨leftChecks, rightChecks⟩ := checks.operands leftTagged rightTagged
      obtain ⟨decides, undecided, applied⟩ := logical_apply env logical
      have blocks := logicalBlocks_of_placed distinct
        (show code.Placed (_ ++ (_ ++ _ ++ _)) post by simpa using placed).right
      have registers_le := leftEmitted.passage.registers_le
      have registers_le₁ := rightEmitted.passage.registers_le
      apply (leftHypothesis leftChecks placed.left.left.left (by simpa using rest_eq)
        conforms).andThenValue leftChecks.typed conforms
      · intro failed
        simp [Expr.eval, failed]
      intro first middle leftEvaluated firstTyped leftConforms leftThere
      obtain ⟨truth, rfl⟩ := exists_truth firstTyped
      by_cases short : truth = shortValue op
      · subst short
        rw [Expr.eval_decided leftEvaluated decides]
        apply (blocks.decided leftThere.rest_eq leftThere.value_eq).imp
        intro outcome after
        exact leftThere.trans (Nat.le_trans registers_le registers_le₁)
      · obtain rfl : truth = !shortValue op := Bool.eq_not.mpr short
        obtain ⟨start, reaches, start_rest, start_registers, start_world⟩ :=
          blocks.undecided leftThere.rest_eq leftThere.value_eq
        apply Follows.of_reaches reaches
        rw [← start_world] at leftConforms leftEvaluated
        apply (rightHypothesis rightChecks placed.left.right start_rest
          leftConforms).andThenValue rightChecks.typed leftConforms
        · intro failed
          simp [Expr.eval, leftEvaluated, undecided, failed]
        intro second last rightEvaluated secondTyped _ rightThere
        obtain ⟨truth, rfl⟩ := exists_truth secondTyped
        rw [Expr.eval_undecided leftEvaluated undecided rightEvaluated, applied]
        apply (blocks.closed rightThere.rest_eq rightThere.value_eq).imp
        intro outcome after there
        exact leftThere.trans registers_le
          ((rightThere.trans registers_le₁ there).of_eq start_registers start_world)

end Lowering

end MiniLang
