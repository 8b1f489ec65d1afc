import MiniLang.Proofs.Reading.Acceptance
import MiniLang.Proofs.Reading.Sentences
import MiniLang.Proofs.Reading.WellFounded
import MiniLang.Proofs.Tree.Ownership

/-!
# Work inside a statement

The frames, the mode and the body of a reading hold the numbers of the nodes that no node names yet.
Until a statement is complete, reading it adds expressions, moves numbers between the frames, the
mode and the new nodes, and touches nothing else.
-/

namespace MiniLang
namespace Reading

section Holdings

/-- The expressions that an open frame has been given. -/
def Frame.exprs : Frame -> List ExprId
  | .binary _ _ left => [left]
  | .yesBranch _ test => [test]
  | .noBranch _ test _ => [test]
  | .loopBody _ test => [test]
  | _ => []

/-- The statements that an open frame has been given. -/
def Frame.stmts : Frame -> List StmtId
  | .noBranch _ _ yes => [yes]
  | .block _ body => body
  | _ => []

/-- The expressions that a transfer has been given. -/
def Transfer.exprs : Transfer -> List ExprId
  | .read _ _ => []
  | .write _ value => [value]

/-- The expressions that a mode passes on. -/
def Mode.exprs : Mode -> List ExprId
  | .value last => [last]
  | .formatWord transfer => transfer.exprs
  | .formatEnd transfer => transfer.exprs
  | _ => []

/-- The statements that a mode passes on. -/
def Mode.stmts : Mode -> List StmtId
  | .completed last => [last]
  | _ => []

/-- The expressions that wait to be named by a node. -/
def exprsHeld (reading : Reading) : List ExprId :=
  reading.stack.flatMap Frame.exprs ++ reading.mode.exprs

/-- The statements that wait to be named by a node, and those of the body. -/
def stmtsHeld (reading : Reading) : List StmtId :=
  reading.stack.flatMap Frame.stmts ++ reading.mode.stmts ++ reading.body

/-- How often an expression is named or held. -/
def exprUses (reading : Reading) (id : ExprId) : Nat :=
  reading.forest.exprsNamed.count id + reading.exprsHeld.count id

/-- How often a statement is named or held. -/
def stmtUses (reading : Reading) (id : StmtId) : Nat :=
  reading.forest.stmtsNamed.count id + reading.stmtsHeld.count id

end Holdings

/-- The frames from the innermost open block on. -/
def blocks (stack : List Frame) : List Frame :=
  stack.dropWhile fun frame => !frame.isBlock

theorem blocks_cons
    {frame : Frame}
    (plain : frame.isBlock = false)
    (outer : List Frame) :
    blocks (frame :: outer) = blocks outer := by
  simp [blocks, plain]

theorem blocks_append
    {frames : List Frame}
    (plain : ∀ frame ∈ frames, frame.isBlock = false)
    (outer : List Frame) :
    blocks (frames ++ outer) = blocks outer := by
  induction frames with
  | nil => rfl
  | cons frame frames inductionHypothesis =>
      rw [List.cons_append, blocks_cons (plain frame (by simp)),
        inductionHypothesis fun other present => plain other (by simp [present])]

/-- Work inside a statement: expressions may be added, and the numbers that the frames and the mode
hold may move.  Each number is then named or held as often as before, and each new one once. -/
structure Works (before after : Reading) : Prop where
  grows : before.forest.Grows after.forest
  texts_eq : after.forest.texts = before.forest.texts
  stmts_eq : after.forest.stmts = before.forest.stmts
  blocks_eq : blocks after.stack = blocks before.stack
  body_eq : after.body = before.body
  declarations_eq : after.declarations = before.declarations
  expr_balance : ∀ id, after.exprUses id + supply before.forest.exprs.size id =
    before.exprUses id + supply after.forest.exprs.size id
  stmt_balance : ∀ id, after.stmtsHeld.count id = before.stmtsHeld.count id

namespace Works

theorem refl (reading : Reading) : reading.Works reading where
  grows := .refl _
  texts_eq := rfl
  stmts_eq := rfl
  blocks_eq := rfl
  body_eq := rfl
  declarations_eq := rfl
  expr_balance _ := rfl
  stmt_balance _ := rfl

theorem trans
    {first second third : Reading}
    (works : first.Works second)
    (works' : second.Works third) :
    first.Works third where
  grows := works.grows.trans works'.grows
  texts_eq := works'.texts_eq.trans works.texts_eq
  stmts_eq := works'.stmts_eq.trans works.stmts_eq
  blocks_eq := works'.blocks_eq.trans works.blocks_eq
  body_eq := works'.body_eq.trans works.body_eq
  declarations_eq := works'.declarations_eq.trans works.declarations_eq
  expr_balance id := by
    have balance := works.expr_balance id
    have balance' := works'.expr_balance id
    omega
  stmt_balance id := (works'.stmt_balance id).trans (works.stmt_balance id)

variable (reading : Reading)

/-- The mode turns, holding the same numbers. -/
theorem turn
    (mode : Mode)
    (exprs_eq : mode.exprs = reading.mode.exprs)
    (stmts_eq : mode.stmts = reading.mode.stmts) :
    reading.Works { reading with mode := mode } where
  grows := .refl _
  texts_eq := rfl
  stmts_eq := rfl
  blocks_eq := rfl
  body_eq := rfl
  declarations_eq := rfl
  expr_balance id := by simp only [exprUses, exprsHeld, exprs_eq]
  stmt_balance id := by simp only [stmtsHeld, stmts_eq]

/-- A frame that is no block opens and takes over what the mode does not keep. -/
theorem enter
    (frame : Frame)
    (mode : Mode)
    (plain : frame.isBlock = false)
    (exprs_eq : frame.exprs ++ mode.exprs = reading.mode.exprs)
    (stmts_eq : frame.stmts ++ mode.stmts = reading.mode.stmts) :
    reading.Works { reading with stack := frame :: reading.stack, mode := mode } where
  grows := .refl _
  texts_eq := rfl
  stmts_eq := rfl
  blocks_eq := blocks_cons plain _
  body_eq := rfl
  declarations_eq := rfl
  expr_balance id := by
    simp only [exprUses, exprsHeld, ← exprs_eq, List.flatMap_cons, List.count_append]
    omega
  stmt_balance id := by
    simp only [stmtsHeld, ← stmts_eq, List.flatMap_cons, List.count_append]
    omega

/-- A frame that is no block closes and hands over what it has been given. -/
theorem leave
    {frame : Frame}
    {outer : List Frame}
    (stack_eq : reading.stack = frame :: outer)
    (mode : Mode)
    (plain : frame.isBlock = false)
    (exprs_eq : mode.exprs = frame.exprs ++ reading.mode.exprs)
    (stmts_eq : mode.stmts = frame.stmts ++ reading.mode.stmts) :
    reading.Works { reading with stack := outer, mode := mode } where
  grows := .refl _
  texts_eq := rfl
  stmts_eq := rfl
  blocks_eq := by rw [stack_eq, blocks_cons plain]
  body_eq := rfl
  declarations_eq := rfl
  expr_balance id := by
    simp only [exprUses, exprsHeld, exprs_eq, stack_eq, List.flatMap_cons, List.count_append]
    omega
  stmt_balance id := by
    simp only [stmtsHeld, stmts_eq, stack_eq, List.flatMap_cons, List.count_append]
    omega

/-- An expression is added over what the innermost frames and the mode hold. -/
theorem addExpr
    (line : Line)
    (form : ExprForm)
    {frames outer : List Frame}
    (stack_eq : reading.stack = frames ++ outer)
    (plain : ∀ frame ∈ frames, frame.isBlock = false)
    (exprs_eq : form.children = frames.flatMap Frame.exprs ++ reading.mode.exprs)
    (stmts_eq : frames.flatMap Frame.stmts ++ reading.mode.stmts = []) :
    reading.Works
      { reading with
        forest := (reading.forest.addExpr line form).2
        stack := outer
        mode := .value (reading.forest.addExpr line form).1 } where
  grows := .addExpr _ _ _
  texts_eq := rfl
  stmts_eq := rfl
  blocks_eq := by rw [stack_eq, blocks_append plain]
  body_eq := rfl
  declarations_eq := rfl
  expr_balance id := by
    have size_eq : (reading.forest.addExpr line form).2.exprs.size =
        reading.forest.exprs.size + 1 := by simp [Forest.addExpr]
    have named := reading.forest.count_exprsNamed_addExpr line form id
    rw [exprs_eq, List.count_append] at named
    change (reading.forest.addExpr line form).2.exprsNamed.count id +
      (outer.flatMap Frame.exprs ++ [reading.forest.exprs.size]).count id + _ = _ + supply _ id
    rw [size_eq, supply_succ, List.count_append, named]
    simp only [exprUses, exprsHeld, stack_eq, List.flatMap_append, List.count_append]
    omega
  stmt_balance id := by
    have none_held := congrArg (List.count id) stmts_eq
    change (outer.flatMap Frame.stmts ++ [] ++ reading.body).count id = _
    simp only [List.count_append, List.count_nil] at none_held
    simp only [stmtsHeld, stack_eq, List.flatMap_append, List.count_append, List.count_nil]
    omega

end Works

/-- Whether a frame waits for a statement. -/
def Frame.takesStatement : Frame -> Bool
  | .yesBranch _ _ | .noBranch _ _ _ | .loopBody _ _ | .block _ _ => true
  | _ => false

/-- All open frames wait for a statement. -/
def nested (stack : List Frame) : Bool :=
  stack.all Frame.takesStatement

/-- The open frames lead from an operand, or from where a whole expression may start, out to a
statement or a condition.  An assignment stands only where a whole expression may start. -/
def hosts : Bool -> List Frame -> Bool
  | false, .unary _ _ :: outer => hosts false outer
  | false, .binary _ _ _ :: outer => hosts false outer
  | _, .assign _ _ :: outer => hosts true outer
  | _, .group :: outer => hosts false outer
  | _, .condition _ _ :: outer => nested outer
  | _, .writeValue _ :: outer => nested outer
  | _, .exprStatement _ :: outer => nested outer
  | _, _ => false

/-- Where a whole expression may start, an operand may. -/
theorem hosts_operand
    {stack : List Frame}
    (hosted : hosts true stack = true) :
    hosts false stack = true := by
  cases stack with
  | nil => cases hosted
  | cons frame outer => cases frame <;> first | exact hosted | cases hosted

/-- Dropping frames up to a block leaves frames that wait for a statement. -/
theorem nested_blocks
    {stack : List Frame}
    (is_nested : nested stack = true) :
    nested (blocks stack) = true := by
  rw [nested, List.all_eq_true] at is_nested ⊢
  intro frame present
  exact is_nested frame (List.dropWhile_sublist _ |>.subset present)

/-- Outside of an expression all frames wait for a statement. -/
theorem nested_blocks_of_hosts
    {whole : Bool}
    {stack : List Frame}
    (hosted : hosts whole stack = true) :
    nested (blocks stack) = true := by
  induction stack generalizing whole with
  | nil => rfl
  | cons frame outer inductionHypothesis =>
      cases frame with
      | unary op line | binary op line left =>
          cases whole with
          | false => exact inductionHypothesis hosted
          | true => cases hosted
      | assign target line | group => cases whole <;> exact inductionHypothesis hosted
      | condition construct line | writeValue line | exprStatement line =>
          have is_nested : nested outer = true := by cases whole <;> exact hosted
          rw [blocks_cons rfl]
          exact nested_blocks is_nested
      | _ => cases whole <;> cases hosted

section Reductions

variable (reading : Reading) (forest : Forest) (stack : List Frame) (value : ExprId)

/-- The reading in which a value has just been read, given by the result of a reduction. -/
def reduced (result : Forest × List Frame × ExprId) : Reading :=
  { reading with forest := result.1, stack := result.2.1, mode := .value result.2.2 }

/-- Reducing operators is work inside a statement. -/
theorem works_reduceOperators (level : Nat) :
    (reading.reduced (forest, stack, value)).Works
      (reading.reduced (reduceOperators level forest stack value)) := by
  fun_induction reduceOperators level forest stack value with
  | case1 forest op line outer operand added inductionHypothesis =>
      have added := Works.addExpr (reading.reduced (forest, .unary op line :: outer, operand)) line
        (.unary op operand) (List.singleton_append).symm (by simp [Frame.isBlock]) rfl rfl
      exact added.trans inductionHypothesis
  | case2 forest op line left outer right tight added inductionHypothesis =>
      have added := Works.addExpr (reading.reduced (forest, .binary op line left :: outer, right))
        line (.binary op left right) (List.singleton_append).symm (by simp [Frame.isBlock]) rfl rfl
      exact added.trans inductionHypothesis
  | case3 => exact .refl _
  | case4 => exact .refl _

/-- Reducing assignments is work inside a statement. -/
theorem works_reduceAssignments :
    (reading.reduced (forest, stack, value)).Works
      (reading.reduced (reduceAssignments forest stack value)) := by
  fun_induction reduceAssignments forest stack value with
  | case1 forest target line outer value added inductionHypothesis =>
      have added := Works.addExpr (reading.reduced (forest, .assign target line :: outer, value))
        line (.assign target value) (List.singleton_append).symm (by simp [Frame.isBlock]) rfl rfl
      exact added.trans inductionHypothesis
  | case2 => exact .refl _

variable {stack}

/-- Operators stand where an operand may start. -/
theorem hosts_reduceOperators
    (hosted : hosts false stack = true)
    (level : Nat) :
    hosts false (reduceOperators level forest stack value).2.1 = true := by
  fun_induction reduceOperators level forest stack value with
  | case1 forest op line outer operand added inductionHypothesis => exact inductionHypothesis hosted
  | case2 forest op line left outer right tight added inductionHypothesis =>
      exact inductionHypothesis hosted
  | case3 => exact hosted
  | case4 => exact hosted

/-- Where all operators are reduced, a whole expression has been read. -/
theorem hosts_reduceOperators_zero (hosted : hosts false stack = true) :
    hosts true (reduceOperators 0 forest stack value).2.1 = true := by
  fun_induction reduceOperators 0 forest stack value with
  | case1 forest op line outer operand added inductionHypothesis => exact inductionHypothesis hosted
  | case2 forest op line left outer right tight added inductionHypothesis =>
      exact inductionHypothesis hosted
  | case3 forest op line left outer right loose => exact absurd (Nat.zero_le _) loose
  | case4 forest stack operand no_unary no_binary =>
      cases stack with
      | nil => cases hosted
      | cons frame outer =>
          cases frame with
          | unary op line => exact absurd rfl (no_unary op line outer)
          | binary op line left => exact absurd rfl (no_binary op line left outer)
          | _ => exact hosted

/-- Where all assignments are reduced, a frame waits for the expression. -/
theorem waits_reduceAssignments (hosted : hosts true stack = true) :
    waits (reduceAssignments forest stack value).2.1 = true ∧
      hosts true (reduceAssignments forest stack value).2.1 = true := by
  fun_induction reduceAssignments forest stack value with
  | case1 forest target line outer value added inductionHypothesis =>
      exact inductionHypothesis hosted
  | case2 forest stack value no_assign =>
      refine ⟨?_, hosted⟩
      cases stack with
      | nil => cases hosted
      | cons frame outer =>
          cases frame with
          | assign target line => exact absurd rfl (no_assign target line outer)
          | _ => first | rfl | cases hosted

end Reductions

section Modes

variable (reading : Reading) (mode : Mode) (value : ExprId) (token : Token)

/-- Where a frame waits for an expression, what follows this does not depend on the mode. -/
theorem afterExpression_mode (waiting : waits reading.stack = true) :
    { reading with mode := mode }.afterExpression value token =
      reading.afterExpression value token := by
  obtain ⟨mode', stack, body, declarations, forest, errors, endReported⟩ := reading
  have given_up :=
    fail_mode ⟨mode', stack, body, declarations, forest, errors, endReported⟩ mode token
  cases stack with
  | nil => cases waiting
  | cons frame outer =>
      cases frame with
      | group | condition construct line | exprStatement line =>
          simp only [afterExpression, complete, given_up]
      | writeValue line =>
          dsimp only [afterExpression]
          split
          · rfl
          · rfl
          · exact given_up _
      | _ => cases waiting

/-- Where an operand may stand, what follows it does not depend on the mode. -/
theorem afterOperand_mode (hosted : hosts false reading.stack = true) :
    { reading with mode := mode }.afterOperand value token = reading.afterOperand value token := by
  unfold afterOperand
  cases infixOp? token with
  | some op => rfl
  | none =>
      dsimp only [endExpression]
      split
      · exact fail_mode { reading with
          forest := (reduceOperators 0 reading.forest reading.stack value).1
          stack := (reduceOperators 0 reading.forest reading.stack value).2.1 } _ _ _
      · have operatorsHosted := hosts_reduceOperators_zero reading.forest value hosted
        generalize reduceOperators 0 reading.forest reading.stack value = result at operatorsHosted
        have waiting := (waits_reduceAssignments result.1 result.2.2 operatorsHosted).1
        generalize reduceAssignments result.1 result.2.1 result.2.2 = final at waiting
        exact afterExpression_mode { reading with forest := final.1, stack := final.2.1 } _ _ _
          waiting

end Modes

end Reading
end MiniLang
