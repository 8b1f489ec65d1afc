import MiniLang.Proofs.Tree.WellFounded
import MiniLang.Reading.Program

/-!
# Readings build well-founded forests

Whatever the tokens are, a reading adds nodes only over numbers that it has been given before.  The
invariant says so for the open frames, the mode and the body; each function that takes a token keeps
it, hence so does the reading of any list of tokens, with or without errors.
-/

namespace MiniLang
namespace Reading

/-- The nodes that a frame names exist. -/
def Frame.Known (forest : Forest) : Frame -> Prop
  | .binary _ _ left => left < forest.exprs.size
  | .yesBranch _ test => test < forest.exprs.size
  | .noBranch _ test yes => test < forest.exprs.size ∧ yes < forest.stmts.size
  | .loopBody _ test => test < forest.exprs.size
  | .block _ body => ∀ id ∈ body, id < forest.stmts.size
  | _ => True

/-- The node that a transfer names exists. -/
def Transfer.Known (forest : Forest) : Transfer -> Prop
  | .read _ _ => True
  | .write _ value => value < forest.exprs.size

/-- The nodes that a mode names exist. -/
def Mode.Known (forest : Forest) : Mode -> Prop
  | .completed last => last < forest.stmts.size
  | .value last => last < forest.exprs.size
  | .formatWord transfer => transfer.Known forest
  | .formatEnd transfer => transfer.Known forest
  | _ => True

/-- A frame stays known when a forest grows. -/
theorem Frame.Known.mono
    {smaller larger : Forest}
    (exprs_le : smaller.exprs.size <= larger.exprs.size)
    (stmts_le : smaller.stmts.size <= larger.stmts.size)
    {frame : Frame}
    (known : frame.Known smaller) :
    frame.Known larger := by
  cases frame with
  | binary op line left => exact Nat.lt_of_lt_of_le known exprs_le
  | yesBranch line test => exact Nat.lt_of_lt_of_le known exprs_le
  | noBranch line test yes =>
      exact ⟨Nat.lt_of_lt_of_le known.1 exprs_le, Nat.lt_of_lt_of_le known.2 stmts_le⟩
  | loopBody line test => exact Nat.lt_of_lt_of_le known exprs_le
  | block line body =>
      intro id present
      exact Nat.lt_of_lt_of_le (known id present) stmts_le
  | _ => trivial

/-- A mode stays known when a forest grows. -/
theorem Mode.Known.mono
    {smaller larger : Forest}
    (exprs_le : smaller.exprs.size <= larger.exprs.size)
    (stmts_le : smaller.stmts.size <= larger.stmts.size)
    {mode : Mode}
    (known : mode.Known smaller) :
    mode.Known larger := by
  have transfer_mono : ∀ transfer : Transfer, transfer.Known smaller ->
      transfer.Known larger := by
    intro transfer transferKnown
    cases transfer with
    | read line target => trivial
    | write line value => exact Nat.lt_of_lt_of_le transferKnown exprs_le
  cases mode with
  | completed last => exact Nat.lt_of_lt_of_le known stmts_le
  | value last => exact Nat.lt_of_lt_of_le known exprs_le
  | formatWord transfer => exact transfer_mono transfer known
  | formatEnd transfer => exact transfer_mono transfer known
  | _ => trivial

/-- The forest is well-founded, and the open frames and the body name nodes of it. -/
structure Steady (reading : Reading) : Prop where
  forest : reading.forest.WellFounded
  stack : ∀ frame ∈ reading.stack, frame.Known reading.forest
  body : ∀ id ∈ reading.body, id < reading.forest.stmts.size

/-- A steady reading whose mode names nodes of the forest. -/
structure Sound (reading : Reading) : Prop where
  steady : reading.Steady
  mode : reading.mode.Known reading.forest

@[simp] theorem forest_report (reading : Reading) (error : SyntaxError) :
    (reading.report error).forest = reading.forest := by
  unfold report
  repeat' split
  all_goals rfl

@[simp] theorem stack_report (reading : Reading) (error : SyntaxError) :
    (reading.report error).stack = reading.stack := by
  unfold report
  repeat' split
  all_goals rfl

@[simp] theorem body_report (reading : Reading) (error : SyntaxError) :
    (reading.report error).body = reading.body := by
  unfold report
  repeat' split
  all_goals rfl

namespace Steady

variable {reading : Reading}

/-- A steady reading is sound in every mode that names existing nodes. -/
theorem sound_mode
    (steady : reading.Steady)
    (mode : Mode)
    (known : mode.Known reading.forest) :
    { reading with mode := mode }.Sound :=
  ⟨⟨steady.forest, steady.stack, steady.body⟩, known⟩

/-- Replacing the stack by known frames keeps a reading steady. -/
theorem with_stack
    (steady : reading.Steady)
    (stack : List Frame)
    (known : ∀ frame ∈ stack, frame.Known reading.forest) :
    { reading with stack := stack }.Steady :=
  ⟨steady.forest, known, steady.body⟩

/-- Opening a known frame keeps a reading steady. -/
theorem push
    (steady : reading.Steady)
    (frame : Frame)
    (known : frame.Known reading.forest) :
    { reading with stack := frame :: reading.stack }.Steady := by
  refine steady.with_stack _ ?_
  intro other present
  obtain rfl | present := List.mem_cons.1 present
  · exact known
  · exact steady.stack other present

/-- Growing the forest keeps a reading steady. -/
theorem with_forest
    (steady : reading.Steady)
    (forest : Forest)
    (wellFounded : forest.WellFounded)
    (exprs_le : reading.forest.exprs.size <= forest.exprs.size)
    (stmts_le : reading.forest.stmts.size <= forest.stmts.size) :
    { reading with forest := forest }.Steady where
  forest := wellFounded
  stack := fun frame present => (steady.stack frame present).mono exprs_le stmts_le
  body := fun id present => Nat.lt_of_lt_of_le (steady.body id present) stmts_le

/-- Reporting an error keeps a reading steady. -/
theorem report
    (steady : reading.Steady)
    (error : SyntaxError) :
    (reading.report error).Steady where
  forest := by simpa using steady.forest
  stack := by simpa using steady.stack
  body := by simpa using steady.body

/-- Adding an expression over existing ones keeps a reading steady. -/
theorem addExpr
    (steady : reading.Steady)
    (line : Line)
    (form : ExprForm)
    (known : ∀ child ∈ form.children, child < reading.forest.exprs.size) :
    { reading with forest := (reading.forest.addExpr line form).2 }.Steady :=
  steady.with_forest _ (steady.forest.addExpr line form known) (by simp [Forest.addExpr])
    (Nat.le_refl _)

/-- Adding a statement over existing nodes keeps a reading steady. -/
theorem addStmt
    (steady : reading.Steady)
    (line : Line)
    (form : StmtForm)
    (children_known : ∀ child ∈ form.children, child < reading.forest.stmts.size)
    (values_known : ∀ value ∈ form.values, value < reading.forest.exprs.size)
    (no_text : form.text? = none) :
    { reading with forest := (reading.forest.addStmt line form).2 }.Steady :=
  steady.with_forest _
    (steady.forest.addStmt line form children_known values_known (by simp [no_text]))
    (Nat.le_refl _) (by simp [Forest.addStmt])

/-- Completing a statement over existing nodes gives a sound reading. -/
theorem complete
    (steady : reading.Steady)
    (line : Line)
    (form : StmtForm)
    (children_known : ∀ child ∈ form.children, child < reading.forest.stmts.size)
    (values_known : ∀ value ∈ form.values, value < reading.forest.exprs.size)
    (no_text : form.text? = none) :
    (reading.complete line form).Sound := by
  have added := steady.addStmt line form children_known values_known no_text
  exact added.sound_mode (.completed reading.forest.stmts.size)
    (by simp [Mode.Known, Forest.addStmt])

/-- Closing a block gives a sound reading. -/
theorem closeBlock
    (steady : reading.Steady) :
    reading.closeBlock.Sound := by
  unfold Reading.closeBlock
  split
  · next line body outer stack_eq =>
    have known : ∀ frame ∈ Frame.block line body :: outer, frame.Known reading.forest := by
      rw [← stack_eq]
      exact steady.stack
    have popped : { reading with stack := outer }.Steady :=
      steady.with_stack outer (fun frame present => known frame (by simp [present]))
    refine popped.complete line (.block body.reverse) ?_ (by simp [StmtForm.values]) rfl
    intro child named
    exact known (.block line body) (by simp) child (by simpa [StmtForm.children] using named)
  · exact steady.sound_mode .closed trivial

/-- Going on after an error gives a sound reading. -/
theorem resume
    (steady : reading.Steady)
    (token : Token)
    (next skip : Mode)
    (next_known : next.Known reading.forest)
    (skip_known : skip.Known reading.forest) :
    (reading.resume token next skip).Sound := by
  unfold Reading.resume
  split
  · exact steady.sound_mode next next_known
  · exact steady.closeBlock
  · exact (steady.report _).sound_mode .ended trivial
  · exact steady.sound_mode skip skip_known

/-- Giving up a statement gives a sound reading. -/
theorem fail
    (steady : reading.Steady)
    (token : Token)
    (error : SyntaxError) :
    (reading.fail token error).Sound := by
  refine Steady.resume ?_ token .sequence .skipping trivial trivial
  refine (steady.report error).with_stack _ ?_
  intro frame present
  exact (steady.report error).stack frame ((List.dropWhile_sublist _).mem present)

/-- Giving up a declaration gives a sound reading. -/
theorem failDeclaration
    (steady : reading.Steady)
    (token : Token)
    (error : SyntaxError) :
    (reading.failDeclaration token error).Sound :=
  (steady.report error).resume token .declarations .skippingDeclaration trivial trivial

end Steady

/-- What reducing waiting operators or assignments leaves: a larger well-founded forest, known
frames and a known operand. -/
structure Reduced
    (forest : Forest)
    (result : Forest × List Frame × ExprId) : Prop where
  wellFounded : result.1.WellFounded
  exprs_le : forest.exprs.size <= result.1.exprs.size
  stmts_eq : result.1.stmts = forest.stmts
  stack : ∀ frame ∈ result.2.1, frame.Known result.1
  value_lt : result.2.2 < result.1.exprs.size

/-- Frames stay known when an expression is added. -/
theorem known_addExpr
    {forest : Forest}
    {stack : List Frame}
    (known : ∀ frame ∈ stack, frame.Known forest)
    (line : Line)
    (form : ExprForm) :
    ∀ frame ∈ stack, frame.Known (forest.addExpr line form).2 := by
  intro frame present
  refine Frame.Known.mono ?_ ?_ (known frame present)
  · simp [Forest.addExpr]
  · simp [Forest.addExpr]

/-- One reduction adds an expression over known ones; the rest of the reduction goes on from
there. -/
theorem Reduced.step
    {forest : Forest}
    {line : Line}
    {form : ExprForm}
    {result : Forest × List Frame × ExprId}
    (reduced : Reduced (forest.addExpr line form).2 result) :
    Reduced forest result where
  wellFounded := reduced.wellFounded
  exprs_le := by
    have larger := reduced.exprs_le
    simp only [Forest.addExpr, Array.size_push] at larger
    omega
  stmts_eq := reduced.stmts_eq
  stack := reduced.stack
  value_lt := reduced.value_lt

/-- Reducing operators over known frames keeps the forest well-founded. -/
theorem reduced_reduceOperators
    (level : Nat)
    (forest : Forest)
    (stack : List Frame)
    (operand : ExprId)
    (wellFounded : forest.WellFounded)
    (known : ∀ frame ∈ stack, frame.Known forest)
    (operand_lt : operand < forest.exprs.size) :
    Reduced forest (reduceOperators level forest stack operand) := by
  fun_induction reduceOperators level forest stack operand with
  | case1 forest op line outer operand added inductionHypothesis =>
      refine Reduced.step (inductionHypothesis ?_ ?_ ?_)
      · exact wellFounded.addExpr line _ (by simpa [ExprForm.children] using operand_lt)
      · exact known_addExpr (fun frame present => known frame (by simp [present])) line _
      · simp [added, Forest.addExpr]
  | case2 forest op line left outer right tight added inductionHypothesis =>
      have left_lt : left < forest.exprs.size := known (.binary op line left) (by simp)
      refine Reduced.step (inductionHypothesis ?_ ?_ ?_)
      · exact wellFounded.addExpr line _
          (by simpa [ExprForm.children] using ⟨left_lt, operand_lt⟩)
      · exact known_addExpr (fun frame present => known frame (by simp [present])) line _
      · simp [added, Forest.addExpr]
  | case3 => exact ⟨wellFounded, Nat.le_refl _, rfl, known, operand_lt⟩
  | case4 => exact ⟨wellFounded, Nat.le_refl _, rfl, known, operand_lt⟩

/-- Reducing assignments over known frames keeps the forest well-founded. -/
theorem reduced_reduceAssignments
    (forest : Forest)
    (stack : List Frame)
    (value : ExprId)
    (wellFounded : forest.WellFounded)
    (known : ∀ frame ∈ stack, frame.Known forest)
    (value_lt : value < forest.exprs.size) :
    Reduced forest (reduceAssignments forest stack value) := by
  fun_induction reduceAssignments forest stack value with
  | case1 forest target line outer value added inductionHypothesis =>
      refine Reduced.step (inductionHypothesis ?_ ?_ ?_)
      · exact wellFounded.addExpr line _ (by simpa [ExprForm.children] using value_lt)
      · exact known_addExpr (fun frame present => known frame (by simp [present])) line _
      · simp [added, Forest.addExpr]
  | case2 => exact ⟨wellFounded, Nat.le_refl _, rfl, known, value_lt⟩

namespace Steady

variable {reading : Reading}

/-- A reduction leaves a steady reading. -/
theorem with_reduction
    (steady : reading.Steady)
    {result : Forest × List Frame × ExprId}
    (reduced : Reduced reading.forest result) :
    { reading with forest := result.1, stack := result.2.1 }.Steady where
  forest := reduced.wellFounded
  stack := reduced.stack
  body := by
    intro id present
    have known := steady.body id present
    rwa [← reduced.stmts_eq] at known

/-- A leaf gives a sound reading. -/
theorem leaf
    (steady : reading.Steady)
    (line : Line)
    (form : ExprForm)
    (no_children : form.children = []) :
    (reading.leaf line form).Sound := by
  have added := steady.addExpr line form (by simp [no_children])
  exact added.sound_mode (.value reading.forest.exprs.size)
    (by simp [Mode.Known, Forest.addExpr])

/-- Starting an operand gives a sound reading. -/
theorem operand
    (steady : reading.Steady)
    (token : Token) :
    (reading.operand token).Sound := by
  unfold Reading.operand
  cases token.kind with
  | name spelling => exact steady.leaf _ _ rfl
  | int value => exact steady.leaf _ _ rfl
  | real bits => exact steady.leaf _ _ rfl
  | text bytes => exact steady.fail token _
  | endOfFile => exact steady.fail token _
  | keyword word =>
      cases word with
      | true => exact steady.leaf _ _ rfl
      | false => exact steady.leaf _ _ rfl
      | _ => exact steady.fail token _
  | mark sign =>
      cases sign with
      | leftParen => exact steady.sound_mode _ trivial
      | minus | bang | tilde =>
          exact (steady.push (.unary _ token.line) trivial).sound_mode .operand trivial
      | _ => exact steady.fail token _

/-- Starting an expression gives a sound reading. -/
theorem expression
    (steady : reading.Steady)
    (token : Token) :
    (reading.expression token).Sound := by
  unfold Reading.expression
  split
  · exact steady.sound_mode _ trivial
  · exact steady.operand token

/-- A token after an opening parenthesis gives a sound reading. -/
theorem afterParen
    (steady : reading.Steady)
    (line : Line)
    (token : Token) :
    (reading.afterParen line token).Sound := by
  have grouped := steady.push .group trivial
  unfold Reading.afterParen
  split
  · split
    · exact steady.sound_mode _ trivial
    · exact grouped.expression token
  · exact grouped.expression token

/-- A token after the type of a cast gives a sound reading. -/
theorem afterCastType
    (steady : reading.Steady)
    (line : Line)
    (op : UnaryOp)
    (type token : Token) :
    (reading.afterCastType line op type token).Sound := by
  unfold Reading.afterCastType
  split
  · exact (steady.push (.unary op line) trivial).sound_mode .operand trivial
  · exact steady.fail token _

/-- A token after a complete expression gives a sound reading. -/
theorem afterExpression
    (steady : reading.Steady)
    (mode_known : reading.mode.Known reading.forest)
    (value : ExprId)
    (value_lt : value < reading.forest.exprs.size)
    (token : Token) :
    (reading.afterExpression value token).Sound := by
  have popped : ∀ frame outer, reading.stack = frame :: outer ->
      ∀ other ∈ outer, other.Known reading.forest := by
    intro frame outer stack_eq other present
    exact steady.stack other (by simp [stack_eq, present])
  unfold Reading.afterExpression
  split
  · next outer stack_eq =>
    split
    · exact (steady.with_stack outer (popped _ _ stack_eq)).sound_mode (.value value) value_lt
    · exact steady.fail token _
  · next construct line outer stack_eq =>
    split
    · cases construct with
      | branch =>
          have pushed := (steady.with_stack outer (popped _ _ stack_eq)).push
            (.yesBranch line value) value_lt
          exact pushed.sound_mode .statement trivial
      | loop =>
          have pushed := (steady.with_stack outer (popped _ _ stack_eq)).push
            (.loopBody line value) value_lt
          exact pushed.sound_mode .statement trivial
    · exact steady.fail token _
  · next line outer stack_eq =>
    have rest := steady.with_stack outer (popped _ _ stack_eq)
    split
    · exact rest.complete line _ (by simp [StmtForm.children])
        (by simpa [StmtForm.values] using value_lt) rfl
    · exact rest.sound_mode (.formatWord (.write line value)) value_lt
    · exact steady.fail token _
  · next line outer stack_eq =>
    split
    · exact (steady.with_stack outer (popped _ _ stack_eq)).complete line _
        (by simp [StmtForm.children]) (by simpa [StmtForm.values] using value_lt) rfl
    · exact steady.fail token _
  · exact ⟨steady, mode_known⟩

/-- Ending an expression gives a sound reading. -/
theorem endExpression
    (steady : reading.Steady)
    (mode_known : reading.mode.Known reading.forest)
    (last : ExprId)
    (last_lt : last < reading.forest.exprs.size)
    (token : Token) :
    (reading.endExpression last token).Sound := by
  have operators := reduced_reduceOperators 0 reading.forest reading.stack last steady.forest
    steady.stack last_lt
  unfold Reading.endExpression
  generalize reduceOperators 0 reading.forest reading.stack last = result at operators
  obtain ⟨forest, stack, value⟩ := result
  have reducedSteady := steady.with_reduction operators
  dsimp only at operators reducedSteady ⊢
  split
  · exact reducedSteady.fail token _
  · have assignments := reduced_reduceAssignments forest stack value operators.wellFounded
      operators.stack operators.value_lt
    generalize reduceAssignments forest stack value = result at assignments
    obtain ⟨forest', stack', value'⟩ := result
    refine (reducedSteady.with_reduction assignments).afterExpression ?_ value'
      assignments.value_lt token
    have stmts_eq : forest'.stmts = reading.forest.stmts :=
      assignments.stmts_eq.trans operators.stmts_eq
    exact mode_known.mono (Nat.le_trans operators.exprs_le assignments.exprs_le)
      (by simp [stmts_eq])

/-- A token after a complete operand gives a sound reading. -/
theorem afterOperand
    (steady : reading.Steady)
    (mode_known : reading.mode.Known reading.forest)
    (last : ExprId)
    (last_lt : last < reading.forest.exprs.size)
    (token : Token) :
    (reading.afterOperand last token).Sound := by
  unfold Reading.afterOperand
  split
  · next op found =>
    have operators := reduced_reduceOperators op.level reading.forest reading.stack last
      steady.forest steady.stack last_lt
    generalize reduceOperators op.level reading.forest reading.stack last = result at operators
    obtain ⟨forest, stack, left⟩ := result
    have pushed := (steady.with_reduction operators).push (.binary op token.line left)
      operators.value_lt
    exact pushed.sound_mode .operand trivial
  · exact steady.endExpression mode_known last last_lt token

/-- A token after a name at the start of an expression gives a sound reading. -/
theorem afterNameStart
    (steady : reading.Steady)
    (mode_known : reading.mode.Known reading.forest)
    (target : Target)
    (token : Token) :
    (reading.afterNameStart target token).Sound := by
  unfold Reading.afterNameStart
  split
  · exact (steady.push (.assign target token.line) trivial).sound_mode .expression trivial
  · have added := steady.addExpr target.line (.name target.name) (by simp [ExprForm.children])
    refine added.afterOperand ?_ reading.forest.exprs.size (by simp [Forest.addExpr]) token
    refine Mode.Known.mono ?_ ?_ mode_known
    · simp [Forest.addExpr]
    · simp [Forest.addExpr]

/-- Starting a statement gives a sound reading. -/
theorem statement
    (steady : reading.Steady)
    (token : Token) :
    (reading.statement token).Sound := by
  unfold Reading.statement
  split
  · exact (steady.push (.block token.line []) (by simp [Frame.Known])).sound_mode .sequence trivial
  · exact steady.sound_mode _ trivial
  · exact steady.sound_mode _ trivial
  · exact steady.sound_mode _ trivial
  · exact steady.sound_mode _ trivial
  · exact steady.sound_mode _ trivial
  · exact (steady.push (.exprStatement token.line) trivial).expression token

/-- A token in a sequence of statements gives a sound reading. -/
theorem sequence
    (steady : reading.Steady)
    (token : Token) :
    (reading.sequence token).Sound := by
  unfold Reading.sequence
  split
  · exact steady.closeBlock
  · exact (steady.report _).sound_mode .ended trivial
  · exact steady.statement token

end Steady

/-- Putting a complete statement into place gives a sound reading.  The frames may differ from those
of the reading, whose own are replaced at the end. -/
theorem sound_settle
    (token : Token)
    (reading : Reading)
    (stack : List Frame)
    (last : StmtId)
    (wellFounded : reading.forest.WellFounded)
    (known : ∀ frame ∈ stack, frame.Known reading.forest)
    (body_lt : ∀ id ∈ reading.body, id < reading.forest.stmts.size)
    (last_lt : last < reading.forest.stmts.size) :
    (settle token reading stack last).Sound := by
  fun_induction settle token reading stack last with
  | case1 reading line condition outer yes isElse =>
      have condition_lt : condition < reading.forest.exprs.size :=
        known (.yesBranch line condition) (by simp)
      have steady : { reading with stack := .noBranch line condition yes :: outer }.Steady := by
        refine ⟨wellFounded, ?_, body_lt⟩
        intro frame present
        obtain rfl | present := List.mem_cons.1 present
        · exact ⟨condition_lt, last_lt⟩
        · exact known frame (by simp [present])
      exact steady.sound_mode .statement trivial
  | case2 reading line condition outer yes notElse added inductionHypothesis =>
      have condition_lt : condition < reading.forest.exprs.size :=
        known (.yesBranch line condition) (by simp)
      have steady : { reading with stack := outer }.Steady :=
        ⟨wellFounded, fun frame present => known frame (by simp [present]), body_lt⟩
      have grown := steady.addStmt line (.branch condition yes none)
        (by simpa [StmtForm.children] using last_lt)
        (by simpa [StmtForm.values] using condition_lt) rfl
      exact inductionHypothesis grown.forest grown.stack grown.body
        (by simp [added, Forest.addStmt])
  | case3 reading line condition yes outer no added inductionHypothesis =>
      have branch_known := known (.noBranch line condition yes) (by simp)
      have steady : { reading with stack := outer }.Steady :=
        ⟨wellFounded, fun frame present => known frame (by simp [present]), body_lt⟩
      have grown := steady.addStmt line (.branch condition yes (some no))
        (by simpa [StmtForm.children] using ⟨branch_known.2, last_lt⟩)
        (by simpa [StmtForm.values] using branch_known.1) rfl
      exact inductionHypothesis grown.forest grown.stack grown.body
        (by simp [added, Forest.addStmt])
  | case4 reading line condition outer body added inductionHypothesis =>
      have condition_lt : condition < reading.forest.exprs.size :=
        known (.loopBody line condition) (by simp)
      have steady : { reading with stack := outer }.Steady :=
        ⟨wellFounded, fun frame present => known frame (by simp [present]), body_lt⟩
      have grown := steady.addStmt line (.loop condition body)
        (by simpa [StmtForm.children] using last_lt)
        (by simpa [StmtForm.values] using condition_lt) rfl
      exact inductionHypothesis grown.forest grown.stack grown.body
        (by simp [added, Forest.addStmt])
  | case5 reading line body outer last =>
      have block_known := known (.block line body) (by simp)
      have steady : { reading with stack := .block line (last :: body) :: outer }.Steady := by
        refine ⟨wellFounded, ?_, body_lt⟩
        intro frame present
        obtain rfl | present := List.mem_cons.1 present
        · simpa [Frame.Known] using ⟨last_lt, block_known⟩
        · exact known frame (by simp [present])
      exact steady.sequence token
  | case6 reading head outer last _ _ _ _ inductionHypothesis =>
      exact inductionHypothesis wellFounded (fun frame present => known frame (by simp [present]))
        body_lt last_lt
  | case7 reading last =>
      have steady : { reading with stack := [], body := last :: reading.body }.Steady := by
        refine ⟨wellFounded, by simp, ?_⟩
        simpa using ⟨last_lt, body_lt⟩
      exact steady.sequence token

namespace Steady

variable {reading : Reading}

/-- Opening a condition gives a sound reading. -/
theorem openCondition
    (steady : reading.Steady)
    (construct : Construct)
    (line : Line)
    (token : Token) :
    (reading.openCondition construct line token).Sound := by
  unfold Reading.openCondition
  split
  · exact (steady.push (.condition construct line) trivial).sound_mode .expression trivial
  · exact steady.fail token _

/-- Starting to write gives a sound reading. -/
theorem writeStart
    (steady : reading.Steady)
    (line : Line)
    (token : Token) :
    (reading.writeStart line token).Sound := by
  unfold Reading.writeStart
  split
  · exact steady.sound_mode _ trivial
  · exact (steady.push (.writeValue line) trivial).expression token

/-- A token after a string gives a sound reading. -/
theorem textEnd
    (steady : reading.Steady)
    (line : Line)
    (bytes : List UInt8)
    (token : Token) :
    (reading.textEnd line bytes token).Sound := by
  unfold Reading.textEnd
  split
  · have grown := steady.with_forest _ (steady.forest.addText line bytes)
      (by simp [Forest.addText, Forest.addStmt]) (by simp [Forest.addText, Forest.addStmt])
    exact grown.sound_mode (.completed _) (by simp [Mode.Known, Forest.addText, Forest.addStmt])
  · exact steady.fail token _
  · exact steady.fail token _

/-- A token after the word that reads gives a sound reading. -/
theorem readTarget
    (steady : reading.Steady)
    (line : Line)
    (token : Token) :
    (reading.readTarget line token).Sound := by
  unfold Reading.readTarget
  split
  · exact steady.sound_mode _ trivial
  · exact steady.fail token _

/-- A token after the variable that is read gives a sound reading. -/
theorem readEnd
    (steady : reading.Steady)
    (line : Line)
    (target : Target)
    (token : Token) :
    (reading.readEnd line target token).Sound := by
  unfold Reading.readEnd
  split
  · exact steady.complete line _ (by simp [StmtForm.children]) (by simp [StmtForm.values]) rfl
  · exact steady.sound_mode _ trivial
  · exact steady.fail token _

/-- A token in place of the format gives a sound reading. -/
theorem formatWord
    (steady : reading.Steady)
    (transfer : Transfer)
    (known : transfer.Known reading.forest)
    (token : Token) :
    (reading.formatWord transfer token).Sound := by
  unfold Reading.formatWord
  split
  · exact steady.sound_mode (.formatEnd transfer) known
  · exact steady.fail token _

/-- A token after the format gives a sound reading. -/
theorem formatEnd
    (steady : reading.Steady)
    (transfer : Transfer)
    (known : transfer.Known reading.forest)
    (token : Token) :
    (reading.formatEnd transfer token).Sound := by
  unfold Reading.formatEnd
  split
  · cases transfer with
    | read line target =>
        exact steady.complete line _ (by simp [StmtForm.children]) (by simp [StmtForm.values]) rfl
    | write line value =>
        have value_lt : value < reading.forest.exprs.size := known
        exact steady.complete line _ (by simp [StmtForm.children])
          (by simpa [StmtForm.values] using value_lt) rfl
  · exact steady.fail token _

/-- A token after the word that leaves gives a sound reading. -/
theorem leaveEnd
    (steady : reading.Steady)
    (line : Line)
    (token : Token) :
    (reading.leaveEnd line token).Sound := by
  unfold Reading.leaveEnd
  split
  · exact steady.complete line _ (by simp [StmtForm.children]) (by simp [StmtForm.values]) rfl
  · exact steady.fail token _

/-- A token where a declaration may start gives a sound reading. -/
theorem declaration
    (steady : reading.Steady)
    (token : Token) :
    (reading.declaration token).Sound := by
  unfold Reading.declaration
  split
  · split
    · exact steady.sound_mode _ trivial
    · exact steady.sequence token
  · exact steady.sequence token

/-- A token where the program opens gives a sound reading. -/
theorem programWord
    (steady : reading.Steady)
    (token : Token) :
    (reading.programWord token).Sound := by
  unfold Reading.programWord
  split
  · exact steady.sound_mode _ trivial
  · exact (steady.report _).sound_mode .declarations trivial
  · exact (steady.report _).declaration token

/-- A token after the word that opens the program gives a sound reading. -/
theorem openingBrace
    (steady : reading.Steady)
    (token : Token) :
    (reading.openingBrace token).Sound := by
  unfold Reading.openingBrace
  split
  · exact steady.sound_mode _ trivial
  · exact (steady.report _).declaration token

/-- A token in place of a declared name gives a sound reading. -/
theorem declaredName
    (steady : reading.Steady)
    (type : ValueType)
    (token : Token) :
    (reading.declaredName type token).Sound := by
  unfold Reading.declaredName
  split
  · exact ⟨⟨steady.forest, steady.stack, steady.body⟩, trivial⟩
  · exact steady.failDeclaration token _

/-- A token after a declared name gives a sound reading. -/
theorem afterName
    (steady : reading.Steady)
    (type : ValueType)
    (token : Token) :
    (reading.afterName type token).Sound := by
  unfold Reading.afterName
  split
  · exact steady.sound_mode _ trivial
  · exact steady.sound_mode _ trivial
  · exact steady.failDeclaration token _

/-- A token after the program gives a sound reading. -/
theorem afterProgram
    (steady : reading.Steady)
    (token : Token) :
    (reading.afterProgram token).Sound := by
  unfold Reading.afterProgram
  split
  · exact steady.sound_mode _ trivial
  · exact (steady.report _).sound_mode .ended trivial

end Steady

namespace Sound

variable {reading : Reading}

/-- Before the first token a reading is sound. -/
theorem start : Reading.start.Sound :=
  ⟨⟨Forest.WellFounded.empty, by simp [Reading.start], by simp [Reading.start]⟩, trivial⟩

/-- Reading one token keeps a reading sound. -/
theorem feed
    (sound : reading.Sound)
    (token : Token) :
    (reading.feed token).Sound := by
  have steady := sound.steady
  have mode_known := sound.mode
  unfold Reading.feed
  split
  · exact steady.programWord token
  · exact steady.openingBrace token
  · exact steady.declaration token
  · exact steady.declaredName _ token
  · exact steady.afterName _ token
  · exact steady.resume token .declarations .skippingDeclaration trivial trivial
  · exact steady.sequence token
  · exact steady.statement token
  · next last mode_eq =>
    rw [mode_eq] at mode_known
    exact sound_settle token reading reading.stack last steady.forest steady.stack steady.body
      mode_known
  · exact steady.resume token .sequence .skipping trivial trivial
  · exact steady.openCondition _ _ token
  · exact steady.expression token
  · exact steady.operand token
  · exact steady.afterNameStart mode_known _ token
  · exact steady.afterParen _ token
  · exact steady.afterCastType _ _ _ token
  · next last mode_eq =>
    have last_lt := mode_known
    rw [mode_eq] at last_lt
    exact steady.afterOperand mode_known last last_lt token
  · exact steady.writeStart _ token
  · exact steady.textEnd _ _ token
  · exact steady.readTarget _ token
  · exact steady.readEnd _ _ token
  · next transfer mode_eq =>
    rw [mode_eq] at mode_known
    exact steady.formatWord transfer mode_known token
  · next transfer mode_eq =>
    rw [mode_eq] at mode_known
    exact steady.formatEnd transfer mode_known token
  · exact steady.leaveEnd _ token
  · exact steady.afterProgram token
  · exact sound

/-- Reading any tokens keeps a reading sound. -/
theorem feedAll
    (sound : reading.Sound)
    (tokens : List Token) :
    (reading.feedAll tokens).Sound := by
  unfold Reading.feedAll
  induction tokens generalizing reading with
  | nil => exact sound
  | cons token rest inductionHypothesis => exact inductionHypothesis (sound.feed token)

end Sound

end Reading

/-- Every list of tokens is read as a well-founded program. -/
theorem Program.wellFounded_ofTokens
    (tokens : List Token) :
    (Program.ofTokens tokens).1.WellFounded := by
  have steady := (Reading.Sound.start.feedAll (Reading.input tokens)).steady
  refine ⟨steady.forest, ?_, rfl⟩
  intro id present
  exact steady.body id (List.mem_reverse.1 present)

end MiniLang
