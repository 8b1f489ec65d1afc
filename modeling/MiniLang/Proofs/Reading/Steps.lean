import MiniLang.Proofs.Reading.Work

/-!
# What a token does inside a statement

While a statement is being read, a token has one of few effects: work goes on, the statement is
given up, the statement is complete, or a block opens.  This is said here once for every mode.

The errors reported before have no influence on any of this, so an effect is stated as a function of
them.
-/

namespace MiniLang

namespace SyntaxError

/-- The token that an error is about. -/
inductive PointsAt : SyntaxError -> Token -> Prop where
  | unexpected (found : Token) (expected : String) : PointsAt (.unexpected found expected) found
  | badTarget (line : Line) :
      PointsAt (.badTarget ⟨.mark .assign, line⟩) ⟨.mark .assign, line⟩
  | hexText (line : Line) : PointsAt (.hexText ⟨.mark .comma, line⟩) ⟨.mark .comma, line⟩
  | trailing (found : Token) (goes_on : found.kind ≠ .endOfFile) :
      PointsAt (.trailing found) found

/-- An error has the line of the token that it is about. -/
theorem PointsAt.line_eq
    {error : SyntaxError}
    {token : Token}
    (points : error.PointsAt token) :
    error.line = token.line := by
  cases points <;> rfl

/-- Only at the end of the file do the tokens end too early. -/
theorem PointsAt.atEnd_eq_false
    {error : SyntaxError}
    {token : Token}
    (points : error.PointsAt token)
    (goes_on : token.kind ≠ .endOfFile) :
    error.atEnd = false := by
  cases points with
  | unexpected => exact beq_eq_false_iff_ne.2 goes_on
  | _ => rfl

end SyntaxError

namespace Reading

/-- A kind of token that neither ends a statement nor opens or closes a block. -/
def isFlat : Token.Kind -> Bool
  | .mark .semicolon | .mark .leftBrace | .mark .rightBrace | .endOfFile => false
  | _ => true

theorem isFlat_of_infixOp?
    {token : Token}
    {op : BinaryOp}
    (written : infixOp? token = some op) :
    isFlat token.kind = true := by
  unfold infixOp? at written
  split at written
  · next mark kind_eq =>
    rw [kind_eq]
    cases mark <;> first | rfl | cases written
  · cases written

/-- A statement has been begun and is not yet complete. -/
def Inside (reading : Reading) : Prop :=
  match reading.mode with
  | .expression | .nameStart _ => hosts true reading.stack = true
  | .operand | .opened _ | .castEnd _ _ _ | .value _ => hosts false reading.stack = true
  | .statement | .openCondition _ _ | .writeStart _ | .textEnd _ _ | .readTarget _ | .readEnd _ _
  | .formatWord _ | .formatEnd _ | .leaveEnd _ => nested reading.stack = true
  | _ => False

/-- A reading with other errors. -/
def logged (reading : Reading) (ledger : Array SyntaxError × Bool) : Reading :=
  { reading with errors := ledger.1, endReported := ledger.2 }

theorem mode_logged (reading : Reading) (ledger : Array SyntaxError × Bool) :
    (reading.logged ledger).mode = reading.mode := rfl

/-- To report an error changes nothing but the errors. -/
theorem report_eq_logged (reading : Reading) (error : SyntaxError) :
    reading.report error = reading.logged (reading.report error).ledger := by
  unfold report
  split
  · split <;> rfl
  · rfl

@[simp] theorem mode_report (reading : Reading) (error : SyntaxError) :
    (reading.report error).mode = reading.mode := by
  rw [report_eq_logged]
  rfl

/-- To give up a statement is to report an error, to drop the frames up to the innermost block and
to go on there. -/
theorem fail_eq_resume (reading : Reading) (token : Token) (error : SyntaxError) :
    reading.fail token error =
      { reading.report error with
        stack := blocks reading.stack
        mode := .sequence }.resumeStatement token := by
  have moded := resume_mode { reading.report error with stack := blocks reading.stack } .sequence
    token .sequence .skipping
  dsimp only [fail, resumeStatement]
  rw [stack_report]
  exact moded.symm

/-- Only the token read last may be kept in a mode. -/
def Mode.Recalls (token : Token) : Mode -> Prop
  | .castEnd _ _ type => type = token
  | _ => True

/-- What a token does inside a statement, as a function of the errors reported before. -/
inductive Effect (token : Token) (reading : Reading) :
    (Array SyntaxError × Bool -> Reading) -> Prop where
  /-- Work goes on. -/
  | works (after : Reading)
      (works : reading.Works after)
      (inside : after.Inside)
      (flat : isFlat token.kind = true)
      (recalls : after.mode.Recalls token) :
      Effect token reading after.logged
  /-- The statement is given up. -/
  | fails (after : Reading) (error : SyntaxError)
      (works : reading.Works after)
      (points : error.PointsAt token) :
      Effect token reading fun ledger => (after.logged ledger).fail token error
  /-- The statement is given up because of the token before, the type in a parenthesis. -/
  | castFails (line : Line) (op : UnaryOp) (type : Token)
      (mode_eq : reading.mode = .castEnd line op type) :
      Effect token reading fun ledger =>
        (reading.logged ledger).fail token (.missingExpression type)
  /-- The statement is complete. -/
  | ends (after : Reading) (line : Line) (form : StmtForm)
      (works : reading.Works after)
      (is_nested : nested after.stack = true)
      (isEnd : token.kind = .mark .semicolon)
      (children_eq : form.children = after.mode.stmts)
      (values_eq : form.values = after.mode.exprs)
      (no_text : form.text? = none) :
      Effect token reading fun ledger => (after.logged ledger).complete line form
  /-- The statement is complete and writes a new string constant. -/
  | writes (line : Line) (bytes : List UInt8)
      (mode_eq : reading.mode = .textEnd line bytes)
      (isEnd : token.kind = .mark .semicolon) :
      Effect token reading fun ledger =>
        { reading.logged ledger with
          forest := (reading.forest.addText line bytes).2
          mode := .completed (reading.forest.addText line bytes).1 }
  /-- The statement is a block, which opens. -/
  | opens
      (mode_eq : reading.mode = .statement)
      (isOpening : token.kind = .mark .leftBrace) :
      Effect token reading fun ledger =>
        { reading.logged ledger with
          stack := .block token.line [] :: reading.stack
          mode := .sequence }

namespace Effect

variable {token : Token} {reading : Reading}

/-- What a token does after some work it does. -/
theorem of_works
    {second : Reading}
    {result : Array SyntaxError × Bool -> Reading}
    (effect : Effect token second result)
    (works : reading.Works second)
    (apart : second.mode = .expression ∨ ∃ value, second.mode = .value value) :
    Effect token reading result := by
  cases effect with
  | works after works' inside flat recalls =>
      exact .works after (works.trans works') inside flat recalls
  | fails after error works' points => exact .fails after error (works.trans works') points
  | ends after line form works' is_nested isEnd children_eq values_eq no_text =>
      exact .ends after line form (works.trans works') is_nested isEnd children_eq values_eq no_text
  | castFails line op type mode_eq => simp [mode_eq] at apart
  | writes line bytes mode_eq isEnd => simp [mode_eq] at apart
  | opens mode_eq isOpening => simp [mode_eq] at apart

/-- An effect is known by what it does to every record of errors. -/
theorem of_eq
    {result result' : Array SyntaxError × Bool -> Reading}
    (effect : Effect token reading result)
    (result_eq : ∀ ledger, result' ledger = result ledger) :
    Effect token reading result' := by
  obtain rfl : result' = result := funext result_eq
  exact effect

/-- To give up a statement needs no work before. -/
theorem gives_up
    (error : SyntaxError)
    (points : error.PointsAt token) :
    Effect token reading fun ledger => (reading.logged ledger).fail token error :=
  .fails reading error (.refl reading) points

/-- A token stands where something else has to. -/
theorem refuses (expected : String) :
    Effect token reading fun ledger =>
      (reading.logged ledger).fail token (.unexpected token expected) :=
  gives_up _ (.unexpected token expected)

section Expressions

variable (free : reading.mode.exprs = [] ∧ reading.mode.stmts = [])

include free

/-- An operand without parts. -/
theorem leaf
    {form : ExprForm}
    (no_children : form.children = [])
    (hosted : hosts false reading.stack = true)
    (flat : isFlat token.kind = true)
    (line : Line) :
    Effect token reading fun ledger => (reading.logged ledger).leaf line form := by
  have added := Works.addExpr reading line form (List.nil_append _).symm (by simp)
    (by simp [no_children, free.1]) (by simp [free.2])
  exact .works _ added hosted flat trivial

/-- A token where an operand has to start. -/
theorem operand
    (hosted : hosts false reading.stack = true)
    (token : Token) :
    Effect token reading fun ledger => (reading.logged ledger).operand token := by
  obtain ⟨kind, line⟩ := token
  cases kind with
  | name spelling => exact leaf free rfl hosted rfl line
  | int value => exact leaf free rfl hosted rfl line
  | real bits => exact leaf free rfl hosted rfl line
  | text bytes => exact refuses _
  | endOfFile => exact refuses _
  | keyword word =>
      cases word with
      | true => exact leaf free rfl hosted rfl line
      | false => exact leaf free rfl hosted rfl line
      | _ => exact refuses _
  | mark mark =>
      cases mark with
      | leftParen =>
          exact .works _ (.turn reading (.opened line) free.1.symm free.2.symm) hosted rfl
            trivial
      | minus | bang | tilde =>
          exact .works _ (.enter reading (.unary _ line) .operand rfl free.1.symm free.2.symm)
            hosted rfl trivial
      | _ => exact refuses _

/-- A token where an expression has to start. -/
theorem expression
    (hosted : hosts true reading.stack = true)
    (token : Token) :
    Effect token reading fun ledger => (reading.logged ledger).expression token := by
  obtain ⟨kind, line⟩ := token
  cases kind with
  | name spelling =>
      exact .works _ (.turn reading (.nameStart ⟨spelling, line⟩) free.1.symm free.2.symm) hosted
        rfl trivial
  | _ => exact operand free (hosts_operand hosted) _

/-- A token where an expression has to start inside a new frame. -/
theorem enclosed
    (frame : Frame)
    (plain : frame.isBlock = false)
    (empty : frame.exprs = [] ∧ frame.stmts = [])
    (hosted : hosts true (frame :: reading.stack) = true)
    (token : Token) :
    Effect token reading fun ledger =>
      { reading.logged ledger with stack := frame :: reading.stack }.expression token := by
  have entered := Works.enter reading frame .expression plain
    (by rw [empty.1, free.1]; rfl) (by rw [empty.2, free.2]; rfl)
  have started : Effect token { reading with stack := frame :: reading.stack, mode := .expression }
      fun ledger => ({ reading with
        stack := frame :: reading.stack
        mode := .expression }.logged ledger).expression token :=
    expression ⟨rfl, rfl⟩ hosted token
  refine (started.of_works entered (.inl rfl)).of_eq fun ledger => ?_
  exact (expression_mode { reading.logged ledger with stack := frame :: reading.stack } _ _).symm

end Expressions

/-- A token after an opening parenthesis. -/
theorem afterParen
    {line : Line}
    (mode_eq : reading.mode = .opened line)
    (hosted : hosts false reading.stack = true)
    (token : Token) :
    Effect token reading fun ledger => (reading.logged ledger).afterParen line token := by
  have free : reading.mode.exprs = [] ∧ reading.mode.stmts = [] := by rw [mode_eq]; exact ⟨rfl, rfl⟩
  have grouped := enclosed free .group rfl ⟨rfl, rfl⟩ hosted token
  obtain ⟨kind, tokenLine⟩ := token
  cases kind with
  | keyword word =>
      cases word with
      | int | double =>
          exact .works _ (.turn reading (.castEnd line _ ⟨.keyword _, tokenLine⟩) free.1.symm
            free.2.symm) hosted rfl rfl
      | _ => exact grouped
  | _ => exact grouped

/-- A token after an opening parenthesis and a type. -/
theorem afterCastType
    {line : Line}
    {op : UnaryOp}
    {type : Token}
    (mode_eq : reading.mode = .castEnd line op type)
    (hosted : hosts false reading.stack = true)
    (token : Token) :
    Effect token reading fun ledger =>
      (reading.logged ledger).afterCastType line op type token := by
  have free : reading.mode.exprs = [] ∧ reading.mode.stmts = [] := by rw [mode_eq]; exact ⟨rfl, rfl⟩
  by_cases closes : token.kind = .mark .rightParen
  · simp only [Reading.afterCastType, if_pos closes]
    exact .works _ (.enter reading (.unary op line) .operand rfl free.1.symm free.2.symm) hosted
      (by rw [closes]; rfl) trivial
  · simp only [Reading.afterCastType, if_neg closes]
    exact .castFails line op type mode_eq

section Values

variable {value : ExprId}

/-- A closing parenthesis where one is awaited after an expression, and every other token there. -/
theorem closing
    {result : Array SyntaxError × Bool -> Reading}
    (closed : token.kind = .mark .rightParen -> Effect token reading result) :
    Effect token reading fun ledger =>
      if token.kind = .mark .rightParen then result ledger
      else (reading.logged ledger).fail token (.missing token .rightParen) := by
  by_cases closes : token.kind = .mark .rightParen
  · simp only [if_pos closes]
    exact closed closes
  · simp only [if_neg closes]
    exact refuses _

/-- A token after a complete expression, which the innermost frame has been waiting for. -/
theorem afterExpression
    (mode_eq : reading.mode = .value value)
    (waiting : waits reading.stack = true)
    (hosted : hosts true reading.stack = true)
    (token : Token) :
    Effect token reading fun ledger => (reading.logged ledger).afterExpression value token := by
  have exprs_eq : [value] = reading.mode.exprs := by rw [mode_eq]; rfl
  have stmts_eq : [] = reading.mode.stmts := by rw [mode_eq]; rfl
  obtain ⟨mode, stack, body, declarations, forest, errors, endReported⟩ := reading
  cases stack with
  | nil => cases waiting
  | cons frame outer =>
      have left : ∀ mode', mode'.exprs = frame.exprs ++ [value] -> mode'.stmts = frame.stmts ->
          frame.isBlock = false ->
          Works ⟨mode, frame :: outer, body, declarations, forest, errors, endReported⟩
            ⟨mode', outer, body, declarations, forest, errors, endReported⟩ := by
        intro mode' exprs_eq' stmts_eq' plain
        exact .leave _ rfl mode' plain (exprs_eq ▸ exprs_eq')
          (by rw [← stmts_eq, stmts_eq', List.append_nil])
      have leftValue := left (.value value)
      cases frame with
      | group =>
          exact closing fun closes =>
            .works _ (leftValue rfl rfl rfl) hosted (by rw [closes]; rfl) trivial
      | condition construct line =>
          refine closing fun closes => ?_
          cases construct with
          | branch =>
              exact .works _ ((leftValue rfl rfl rfl).trans
                (.enter _ (.yesBranch line value) .statement rfl rfl rfl)) hosted
                (by rw [closes]; rfl) trivial
          | loop =>
              exact .works _ ((leftValue rfl rfl rfl).trans
                (.enter _ (.loopBody line value) .statement rfl rfl rfl)) hosted
                (by rw [closes]; rfl) trivial
      | writeValue line =>
          obtain ⟨kind, tokenLine⟩ := token
          cases kind with
          | mark mark =>
              cases mark with
              | semicolon =>
                  exact .ends _ line (.write value .plain) (leftValue rfl rfl rfl) hosted rfl rfl
                    rfl rfl
              | comma =>
                  exact .works _ (left (.formatWord (.write line value)) rfl rfl rfl) hosted rfl
                    trivial
              | _ => exact refuses _
          | _ => exact refuses _
      | exprStatement line =>
          by_cases isEnd : token.kind = .mark .semicolon
          · simp only [Reading.afterExpression, Reading.logged, if_pos isEnd]
            exact .ends _ line (.expr value) (leftValue rfl rfl rfl) hosted isEnd rfl rfl rfl
          · simp only [Reading.afterExpression, Reading.logged, if_neg isEnd]
            exact refuses _
      | _ => cases waiting

/-- A token that is no infix operator, after a complete operand. -/
theorem endExpression
    (mode_eq : reading.mode = .value value)
    (hosted : hosts false reading.stack = true)
    (token : Token) :
    Effect token reading fun ledger => (reading.logged ledger).endExpression value token := by
  have started : reading.reduced (reading.forest, reading.stack, value) = reading := by
    unfold reduced
    rw [← mode_eq]
  have operators := reading.works_reduceOperators reading.forest reading.stack value 0
  rw [started] at operators
  have operatorsHosted := hosts_reduceOperators_zero reading.forest value hosted
  by_cases assigns : token.kind = .mark .assign
  · have points : (SyntaxError.badTarget token).PointsAt token := by
      obtain ⟨_, line⟩ := token
      cases assigns
      exact .badTarget line
    refine (Effect.fails _ _ operators points).of_eq fun ledger => ?_
    dsimp only [Reading.endExpression]
    rw [if_pos assigns]
    exact (fail_mode { reading.logged ledger with
      forest := (reduceOperators 0 reading.forest reading.stack value).1
      stack := (reduceOperators 0 reading.forest reading.stack value).2.1 } _ _ _).symm
  · generalize operators_eq : reduceOperators 0 reading.forest reading.stack value = result
      at operators operatorsHosted
    have assignments := reading.works_reduceAssignments result.1 result.2.1 result.2.2
    obtain ⟨waiting, assignmentsHosted⟩ :=
      waits_reduceAssignments result.1 result.2.2 operatorsHosted
    generalize assignments_eq : reduceAssignments result.1 result.2.1 result.2.2 = final
      at assignments waiting assignmentsHosted
    have effect : Effect token (reading.reduced final) fun ledger =>
        ((reading.reduced final).logged ledger).afterExpression final.2.2 token :=
      afterExpression rfl waiting assignmentsHosted token
    refine (effect.of_works (operators.trans assignments) (.inr ⟨_, rfl⟩)).of_eq fun ledger => ?_
    have ended : (reading.logged ledger).endExpression value token =
        { reading.logged ledger with
          forest := final.1
          stack := final.2.1 }.afterExpression final.2.2 token := by
      simp only [Reading.endExpression, Reading.logged, if_neg assigns, operators_eq,
        assignments_eq]
    rw [ended]
    exact (afterExpression_mode { reading.logged ledger with
      forest := final.1
      stack := final.2.1 } _ _ _ waiting).symm

/-- A token after a complete operand. -/
theorem afterOperand
    (mode_eq : reading.mode = .value value)
    (hosted : hosts false reading.stack = true)
    (token : Token) :
    Effect token reading fun ledger => (reading.logged ledger).afterOperand value token := by
  have started : reading.reduced (reading.forest, reading.stack, value) = reading := by
    unfold reduced
    rw [← mode_eq]
  cases written : infixOp? token with
  | none =>
      simp only [Reading.afterOperand, written]
      exact endExpression mode_eq hosted token
  | some op =>
      have operators := reading.works_reduceOperators reading.forest reading.stack value op.level
      rw [started] at operators
      have operatorsHosted := hosts_reduceOperators reading.forest value hosted op.level
      simp only [Reading.afterOperand, written]
      exact .works _ (operators.trans (.enter _ (.binary op token.line _) .operand rfl rfl rfl))
        operatorsHosted (isFlat_of_infixOp? written) trivial

end Values

/-- A token after a name at the start of an expression. -/
theorem afterNameStart
    {target : Target}
    (mode_eq : reading.mode = .nameStart target)
    (hosted : hosts true reading.stack = true)
    (token : Token) :
    Effect token reading fun ledger => (reading.logged ledger).afterNameStart target token := by
  have free : reading.mode.exprs = [] ∧ reading.mode.stmts = [] := by rw [mode_eq]; exact ⟨rfl, rfl⟩
  by_cases assigns : token.kind = .mark .assign
  · simp only [Reading.afterNameStart, if_pos assigns]
    exact .works _ (.enter reading (.assign target token.line) .expression rfl free.1.symm
      free.2.symm) hosted (by rw [assigns]; rfl) trivial
  · simp only [Reading.afterNameStart, if_neg assigns]
    have operandHosted := hosts_operand hosted
    have named := Works.addExpr reading target.line (.name target.name) (List.nil_append _).symm
      (by simp) (by simp [free.1, ExprForm.children]) (by simp [free.2])
    let added := reading.forest.addExpr target.line (.name target.name)
    have effect : Effect token { reading with forest := added.2, mode := .value added.1 }
        fun ledger => ({ reading with
          forest := added.2
          mode := .value added.1 }.logged ledger).afterOperand added.1 token := by
      apply afterOperand rfl
      exact operandHosted
    refine (effect.of_works named (.inr ⟨_, rfl⟩)).of_eq fun ledger => ?_
    exact (afterOperand_mode { reading.logged ledger with
      forest := (reading.forest.addExpr target.line (.name target.name)).2 } _ _ _
        operandHosted).symm

section Statements

/-- A token where a statement has to start. -/
theorem statement
    (mode_eq : reading.mode = .statement)
    (is_nested : nested reading.stack = true)
    (token : Token) :
    Effect token reading fun ledger => (reading.logged ledger).statement token := by
  have free : reading.mode.exprs = [] ∧ reading.mode.stmts = [] := by rw [mode_eq]; exact ⟨rfl, rfl⟩
  have expression := enclosed free (.exprStatement token.line) rfl ⟨rfl, rfl⟩ is_nested token
  have turns : ∀ mode : Mode, mode.exprs = [] -> mode.stmts = [] ->
      reading.Works { reading with mode := mode } := fun mode exprs_eq stmts_eq =>
    .turn reading mode (exprs_eq.trans free.1.symm) (stmts_eq.trans free.2.symm)
  obtain ⟨kind, line⟩ := token
  cases kind with
  | mark mark =>
      cases mark with
      | leftBrace => exact .opens mode_eq rfl
      | _ => exact expression
  | keyword word =>
      cases word with
      | «if» => exact .works _ (turns (.openCondition .branch line) rfl rfl) is_nested rfl trivial
      | «while» => exact .works _ (turns (.openCondition .loop line) rfl rfl) is_nested rfl trivial
      | read => exact .works _ (turns (.readTarget line) rfl rfl) is_nested rfl trivial
      | write => exact .works _ (turns (.writeStart line) rfl rfl) is_nested rfl trivial
      | «return» => exact .works _ (turns (.leaveEnd line) rfl rfl) is_nested rfl trivial
      | _ => exact expression
  | _ => exact expression

/-- A token that has to be the semicolon of a statement. -/
theorem closingStatement
    {line : Line}
    {form : StmtForm}
    (is_nested : nested reading.stack = true)
    (children_eq : form.children = reading.mode.stmts)
    (values_eq : form.values = reading.mode.exprs)
    (no_text : form.text? = none)
    (token : Token) :
    Effect token reading fun ledger =>
      if token.kind = .mark .semicolon then (reading.logged ledger).complete line form
      else (reading.logged ledger).fail token (.missing token .semicolon) := by
  by_cases isEnd : token.kind = .mark .semicolon
  · simp only [if_pos isEnd]
    exact .ends reading line form (.refl reading) is_nested isEnd children_eq values_eq no_text
  · simp only [if_neg isEnd]
    exact refuses _

/-- A token after the word that opens a condition. -/
theorem openCondition
    {construct : Construct}
    {line : Line}
    (mode_eq : reading.mode = .openCondition construct line)
    (is_nested : nested reading.stack = true)
    (token : Token) :
    Effect token reading fun ledger =>
      (reading.logged ledger).openCondition construct line token := by
  by_cases opens : token.kind = .mark .leftParen
  · simp only [Reading.openCondition, if_pos opens]
    exact .works _ (.enter reading (.condition construct line) .expression rfl
      (by rw [mode_eq]; rfl) (by rw [mode_eq]; rfl)) is_nested (by rw [opens]; rfl) trivial
  · simp only [Reading.openCondition, if_neg opens]
    exact refuses _

/-- A token after the word that writes. -/
theorem writeStart
    {line : Line}
    (mode_eq : reading.mode = .writeStart line)
    (is_nested : nested reading.stack = true)
    (token : Token) :
    Effect token reading fun ledger => (reading.logged ledger).writeStart line token := by
  have free : reading.mode.exprs = [] ∧ reading.mode.stmts = [] := by rw [mode_eq]; exact ⟨rfl, rfl⟩
  have expression := enclosed free (.writeValue line) rfl ⟨rfl, rfl⟩ is_nested token
  obtain ⟨kind, tokenLine⟩ := token
  cases kind with
  | text bytes =>
      exact .works _ (.turn reading (.textEnd line bytes) free.1.symm free.2.symm) is_nested rfl
        trivial
  | _ => exact expression

/-- A token after a string to be written. -/
theorem textEnd
    {line : Line}
    {bytes : List UInt8}
    (mode_eq : reading.mode = .textEnd line bytes)
    (token : Token) :
    Effect token reading fun ledger => (reading.logged ledger).textEnd line bytes token := by
  obtain ⟨kind, tokenLine⟩ := token
  cases kind with
  | mark mark =>
      cases mark with
      | semicolon => exact .writes line bytes mode_eq rfl
      | comma => exact gives_up _ (.hexText tokenLine)
      | _ => exact refuses _
  | _ => exact refuses _

/-- A token after the word that reads. -/
theorem readTarget
    {line : Line}
    (mode_eq : reading.mode = .readTarget line)
    (is_nested : nested reading.stack = true)
    (token : Token) :
    Effect token reading fun ledger => (reading.logged ledger).readTarget line token := by
  obtain ⟨kind, tokenLine⟩ := token
  cases kind with
  | name spelling =>
      exact .works _ (.turn reading (.readEnd line ⟨spelling, tokenLine⟩) (by rw [mode_eq]; rfl)
        (by rw [mode_eq]; rfl)) is_nested rfl trivial
  | _ => exact refuses _

/-- A token after the variable of a read statement. -/
theorem readEnd
    {line : Line}
    {target : Target}
    (mode_eq : reading.mode = .readEnd line target)
    (is_nested : nested reading.stack = true)
    (token : Token) :
    Effect token reading fun ledger => (reading.logged ledger).readEnd line target token := by
  obtain ⟨kind, tokenLine⟩ := token
  cases kind with
  | mark mark =>
      cases mark with
      | semicolon =>
          exact .ends reading line (.read target .plain) (.refl reading) is_nested rfl
            (by rw [mode_eq]; rfl) (by rw [mode_eq]; rfl) rfl
      | comma =>
          exact .works _ (.turn reading (.formatWord (.read line target)) (by rw [mode_eq]; rfl)
            (by rw [mode_eq]; rfl)) is_nested rfl trivial
      | _ => exact refuses _
  | _ => exact refuses _

/-- A token where the word for the format has to stand. -/
theorem formatWord
    {transfer : Transfer}
    (mode_eq : reading.mode = .formatWord transfer)
    (is_nested : nested reading.stack = true)
    (token : Token) :
    Effect token reading fun ledger => (reading.logged ledger).formatWord transfer token := by
  by_cases isHex : token.kind = .keyword .hex
  · simp only [Reading.formatWord, if_pos isHex]
    exact .works _ (.turn reading (.formatEnd transfer) (by rw [mode_eq]; rfl)
      (by rw [mode_eq]; rfl)) is_nested (by rw [isHex]; rfl) trivial
  · simp only [Reading.formatWord, if_neg isHex]
    exact refuses _

/-- A token after the word for the format. -/
theorem formatEnd
    {transfer : Transfer}
    (mode_eq : reading.mode = .formatEnd transfer)
    (is_nested : nested reading.stack = true)
    (token : Token) :
    Effect token reading fun ledger => (reading.logged ledger).formatEnd transfer token := by
  cases transfer with
  | read line target =>
      exact closingStatement is_nested (by rw [mode_eq]; rfl) (by rw [mode_eq]; rfl) rfl token
  | write line value =>
      exact closingStatement is_nested (by rw [mode_eq]; rfl) (by rw [mode_eq]; rfl) rfl token

/-- A token after the word that leaves the program. -/
theorem leaveEnd
    {line : Line}
    (mode_eq : reading.mode = .leaveEnd line)
    (is_nested : nested reading.stack = true)
    (token : Token) :
    Effect token reading fun ledger => (reading.logged ledger).leaveEnd line token :=
  closingStatement is_nested (by rw [mode_eq]; rfl) (by rw [mode_eq]; rfl) rfl token

end Statements

/-- Inside a statement every token has an effect. -/
theorem feed
    (inside : reading.Inside)
    (token : Token) :
    Effect token reading fun ledger => (reading.logged ledger).feed token := by
  have free : reading.mode = .expression ∨ reading.mode = .operand ->
      reading.mode.exprs = [] ∧ reading.mode.stmts = [] := by
    rintro (mode_eq | mode_eq) <;> rw [mode_eq] <;> exact ⟨rfl, rfl⟩
  unfold Inside at inside
  cases mode_eq : reading.mode <;> simp only [Reading.feed, mode_logged, mode_eq] at inside ⊢
  case expression => exact expression (free (.inl mode_eq)) inside token
  case operand => exact operand (free (.inr mode_eq)) inside token
  case nameStart => exact afterNameStart mode_eq inside token
  case opened => exact afterParen mode_eq inside token
  case castEnd => exact afterCastType mode_eq inside token
  case value => exact afterOperand mode_eq inside token
  case statement => exact statement mode_eq inside token
  case openCondition => exact openCondition mode_eq inside token
  case writeStart => exact writeStart mode_eq inside token
  case textEnd => exact textEnd mode_eq token
  case readTarget => exact readTarget mode_eq inside token
  case readEnd => exact readEnd mode_eq inside token
  case formatWord => exact formatWord mode_eq inside token
  case formatEnd => exact formatEnd mode_eq inside token
  case leaveEnd => exact leaveEnd mode_eq inside token

end Effect

end Reading
end MiniLang
