import Mathlib.Data.List.Forall2
import MiniLang.Proofs.Relabelling.Action
import MiniLang.Reading.Program

/-!
# Reading relabelled tokens

No decision of a reading depends on a name or a line.  So a reading of relabelled tokens goes through
the relabelled states, token by token and also where tokens are refused and skipped, and what it
reports it reports on the relabelled lines.
-/

namespace MiniLang
namespace Relabelling

variable {relabel : Relabelling}

/-- A reading is another one relabelled, with errors that say the same. -/
structure Carries (relabel : Relabelling) (reading reading' : Reading) : Prop where
  mode_eq : reading'.mode = relabel.mode reading.mode
  stack_eq : reading'.stack = reading.stack.map relabel.frame
  body_eq : reading'.body = reading.body
  declarations_eq : reading'.declarations = reading.declarations.map relabel.declaration
  forest_eq : reading'.forest = relabel.forest reading.forest
  errors : List.Forall₂ relabel.RepeatsError reading.errors.toList reading'.errors.toList
  endReported_eq : reading'.endReported = reading.endReported

/-- Reducing relabelled operators gives the relabelled operand and rest of the stack. -/
theorem reduceOperators_map
    (level : Nat)
    (forest : Forest)
    (stack : List Reading.Frame)
    (operand : ExprId) :
    Reading.reduceOperators level (relabel.forest forest) (stack.map relabel.frame) operand =
      (relabel.forest (Reading.reduceOperators level forest stack operand).1,
        (Reading.reduceOperators level forest stack operand).2.1.map relabel.frame,
        (Reading.reduceOperators level forest stack operand).2.2) := by
  induction stack generalizing forest operand with
  | nil => rfl
  | cons frame outer inductionHypothesis =>
      cases frame with
      | unary op line =>
          have added := relabel.addExpr_forest forest line (.unary op operand)
          simp only [List.map_cons, Relabelling.frame, Reading.reduceOperators]
          simp only [exprForm] at added
          rw [added, inductionHypothesis]
      | binary op line left =>
          have added := relabel.addExpr_forest forest line (.binary op left operand)
          simp only [List.map_cons, Relabelling.frame, Reading.reduceOperators]
          simp only [exprForm] at added
          split
          · rw [added, inductionHypothesis]
          · rfl
      | _ => rfl

/-- Reducing relabelled assignments gives the relabelled value and rest of the stack. -/
theorem reduceAssignments_map
    (forest : Forest)
    (stack : List Reading.Frame)
    (value : ExprId) :
    Reading.reduceAssignments (relabel.forest forest) (stack.map relabel.frame) value =
      (relabel.forest (Reading.reduceAssignments forest stack value).1,
        (Reading.reduceAssignments forest stack value).2.1.map relabel.frame,
        (Reading.reduceAssignments forest stack value).2.2) := by
  induction stack generalizing forest value with
  | nil => rfl
  | cons frame outer inductionHypothesis =>
      cases frame with
      | assign target line =>
          have added := relabel.addExpr_forest forest line (.assign target value)
          simp only [List.map_cons, Relabelling.frame, Reading.reduceAssignments]
          simp only [exprForm] at added
          rw [added, inductionHypothesis]
      | _ => rfl

/-- The infix operator of a token is that of the relabelled token. -/
@[simp] theorem infixOp?_token (token : Token) :
    Reading.infixOp? (relabel.token token) = Reading.infixOp? token := by
  obtain ⟨kind, line⟩ := token
  cases kind <;> rfl

namespace Carries

variable {reading reading' : Reading}

theorem start (relabel : Relabelling) : relabel.Carries Reading.start Reading.start where
  mode_eq := rfl
  stack_eq := rfl
  body_eq := rfl
  declarations_eq := by simp [Reading.start]
  forest_eq := by simp [Reading.start, Relabelling.forest]
  errors := .nil
  endReported_eq := rfl

section Updates

variable (carried : relabel.Carries reading reading')
include carried

theorem turn (mode : Reading.Mode) :
    relabel.Carries { reading with mode := mode }
      { reading' with mode := relabel.mode mode } :=
  { carried with mode_eq := rfl }

theorem restack (stack : List Reading.Frame) :
    relabel.Carries { reading with stack := stack }
      { reading' with stack := stack.map relabel.frame } :=
  { carried with stack_eq := rfl }

theorem regrow (forest : Forest) :
    relabel.Carries { reading with forest := forest }
      { reading' with forest := relabel.forest forest } :=
  { carried with forest_eq := rfl }

theorem push (frame : Reading.Frame) :
    relabel.Carries { reading with stack := frame :: reading.stack }
      { reading' with stack := relabel.frame frame :: reading'.stack } :=
  { carried with stack_eq := by rw [carried.stack_eq, List.map_cons] }

theorem report
    {error error' : SyntaxError}
    (repeated : relabel.RepeatsError error error') :
    relabel.Carries (reading.report error) (reading'.report error') := by
  have errors : List.Forall₂ relabel.RepeatsError (reading.errors.push error).toList
      (reading'.errors.push error').toList := by
    rw [Array.toList_push, Array.toList_push]
    exact List.rel_append carried.errors (.cons repeated .nil)
  unfold Reading.report
  rw [repeated.atEnd_eq, carried.endReported_eq]
  split
  · split
    · exact carried
    · exact { carried with errors := errors, endReported_eq := rfl }
  · exact { carried with errors := errors, endReported_eq := rfl }

theorem complete
    (line : Line)
    (form : StmtForm) :
    relabel.Carries (reading.complete line form)
      (reading'.complete (relabel.line line) (relabel.stmtForm form)) := by
  unfold Reading.complete
  rw [carried.forest_eq, relabel.addStmt_forest]
  exact (carried.regrow (reading.forest.addStmt line form).2).turn
    (.completed (reading.forest.addStmt line form).1)

theorem leaf
    (line : Line)
    (form : ExprForm) :
    relabel.Carries (reading.leaf line form)
      (reading'.leaf (relabel.line line) (relabel.exprForm form)) := by
  unfold Reading.leaf Reading.addExpr
  rw [carried.forest_eq, relabel.addExpr_forest]
  exact (carried.regrow (reading.forest.addExpr line form).2).turn
    (.value (reading.forest.addExpr line form).1)

theorem closeBlock : relabel.Carries reading.closeBlock reading'.closeBlock := by
  obtain ⟨_, stack, _, _, _, _, _⟩ := reading
  obtain ⟨_, stack', _, _, _, _, _⟩ := reading'
  obtain rfl : stack' = stack.map relabel.frame := carried.stack_eq
  cases stack with
  | nil => exact carried.turn .closed
  | cons frame outer =>
      cases frame with
      | block line body => exact (carried.restack outer).complete line (.block body.reverse)
      | _ => exact carried.turn .closed

variable (token : Token)

theorem endInput :
    relabel.Carries (reading.endInput token) (reading'.endInput (relabel.token token)) :=
  (carried.report (relabel.repeatsError_unexpected token _)).turn .ended

theorem resume (next skip : Reading.Mode) :
    relabel.Carries (reading.resume token next skip)
      (reading'.resume (relabel.token token) (relabel.mode next) (relabel.mode skip)) := by
  obtain ⟨kind, line⟩ := token
  cases kind with
  | mark sign =>
      cases sign with
      | semicolon => exact carried.turn next
      | rightBrace => exact carried.closeBlock
      | _ => exact carried.turn skip
  | endOfFile => exact carried.endInput ⟨.endOfFile, line⟩
  | _ => exact carried.turn skip

theorem fail
    {error error' : SyntaxError}
    (repeated : relabel.RepeatsError error error') :
    relabel.Carries (reading.fail token error) (reading'.fail (relabel.token token) error') := by
  have reported := carried.report repeated
  have dropped : (reading'.report error').stack.dropWhile (fun frame => !frame.isBlock) =
      ((reading.report error).stack.dropWhile (fun frame => !frame.isBlock)).map relabel.frame := by
    rw [reported.stack_eq, List.dropWhile_map]
    simp only [Function.comp_def, isBlock_frame]
  unfold Reading.fail
  dsimp only
  rw [dropped]
  exact (reported.restack _).resume token .sequence .skipping

theorem failDeclaration
    {error error' : SyntaxError}
    (repeated : relabel.RepeatsError error error') :
    relabel.Carries (reading.failDeclaration token error)
      (reading'.failDeclaration (relabel.token token) error') :=
  (carried.report repeated).resume token .declarations .skippingDeclaration

/-- Giving up a statement because a token is not what it has to be. -/
theorem unexpected (expected : String) :
    relabel.Carries (reading.fail token (.unexpected token expected))
      (reading'.fail (relabel.token token) (.unexpected (relabel.token token) expected)) :=
  carried.fail token (relabel.repeatsError_unexpected token expected)

/-- Giving up a statement for a reason that names no token. -/
theorem refused (reason : String) :
    relabel.Carries (reading.fail token (.refused token.line reason))
      (reading'.fail (relabel.token token) (.refused (relabel.token token).line reason)) :=
  carried.fail token (relabel.repeatsError_refused token.line fun _ => rfl)

theorem operand :
    relabel.Carries (reading.operand token) (reading'.operand (relabel.token token)) := by
  obtain ⟨kind, line⟩ := token
  cases kind with
  | name spelling => exact carried.leaf line (.name spelling)
  | int value => exact carried.leaf line (.int value)
  | real bits => exact carried.leaf line (.double bits)
  | text bytes => exact carried.unexpected ⟨.text bytes, line⟩ _
  | endOfFile => exact carried.unexpected ⟨.endOfFile, line⟩ _
  | keyword word =>
      cases word with
      | «true» => exact carried.leaf line (.bool true)
      | «false» => exact carried.leaf line (.bool false)
      | _ => exact carried.unexpected ⟨.keyword _, line⟩ _
  | mark sign =>
      cases sign with
      | leftParen => exact carried.turn (.opened line)
      | minus => exact (carried.push (.unary .neg line)).turn .operand
      | bang => exact (carried.push (.unary .not line)).turn .operand
      | tilde => exact (carried.push (.unary .bitNot line)).turn .operand
      | _ => exact carried.unexpected ⟨.mark _, line⟩ _

theorem expression :
    relabel.Carries (reading.expression token) (reading'.expression (relabel.token token)) := by
  have operand := carried.operand token
  obtain ⟨kind, line⟩ := token
  cases kind with
  | name spelling => exact carried.turn (.nameStart ⟨spelling, line⟩)
  | _ => exact operand

theorem afterParen (line : Line) :
    relabel.Carries (reading.afterParen line token)
      (reading'.afterParen (relabel.line line) (relabel.token token)) := by
  have grouped := (carried.push .group).expression token
  obtain ⟨kind, tokenLine⟩ := token
  cases kind with
  | keyword word =>
      cases word with
      | int => exact carried.turn (.castEnd line .toInt ⟨.keyword .int, tokenLine⟩)
      | double => exact carried.turn (.castEnd line .toDouble ⟨.keyword .double, tokenLine⟩)
      | _ => exact grouped
  | _ => exact grouped

theorem afterCastType
    (line : Line)
    (op : UnaryOp)
    (type : Token) :
    relabel.Carries (reading.afterCastType line op type token)
      (reading'.afterCastType (relabel.line line) op (relabel.token type)
        (relabel.token token)) := by
  unfold Reading.afterCastType
  simp only [kind_token, kind_eq_mark]
  split
  · exact (carried.push (.unary op line)).turn .operand
  · exact carried.fail token (relabel.repeatsError_unexpected type _)

/-- A token that closes what is open, or is refused. -/
theorem closing
    {closed closed' : Reading}
    (carriedClosed : relabel.Carries closed closed')
    (sign : Mark) :
    relabel.Carries
      (if token.kind = .mark sign then closed else reading.fail token (.missing token sign))
      (if (relabel.token token).kind = .mark sign then closed'
        else reading'.fail (relabel.token token) (.missing (relabel.token token) sign)) := by
  simp only [kind_token, kind_eq_mark]
  split
  · exact carriedClosed
  · exact carried.unexpected token _

theorem afterExpression (value : ExprId) :
    relabel.Carries (reading.afterExpression value token)
      (reading'.afterExpression value (relabel.token token)) := by
  obtain ⟨_, stack, _, _, _, _, _⟩ := reading
  obtain ⟨_, stack', _, _, _, _, _⟩ := reading'
  obtain rfl : stack' = stack.map relabel.frame := carried.stack_eq
  cases stack with
  | nil => exact carried
  | cons frame outer =>
      cases frame with
      | group => exact carried.closing token ((carried.restack outer).turn (.value value)) _
      | condition construct line =>
          cases construct with
          | branch =>
              exact carried.closing token
                ((carried.restack (.yesBranch line value :: outer)).turn .statement) _
          | loop =>
              exact carried.closing token
                ((carried.restack (.loopBody line value :: outer)).turn .statement) _
      | writeValue line =>
          have failed := carried.unexpected token (Token.Kind.mark .semicolon).describe
          obtain ⟨kind, tokenLine⟩ := token
          cases kind with
          | mark sign =>
              cases sign with
              | semicolon => exact (carried.restack outer).complete line (.write value .plain)
              | comma => exact (carried.restack outer).turn (.formatWord (.write line value))
              | _ => exact failed
          | _ => exact failed
      | exprStatement line =>
          exact carried.closing token ((carried.restack outer).complete line (.expr value)) _
      | _ => exact carried

theorem endExpression (last : ExprId) :
    relabel.Carries (reading.endExpression last token)
      (reading'.endExpression last (relabel.token token)) := by
  unfold Reading.endExpression
  rw [carried.stack_eq, carried.forest_eq, reduceOperators_map]
  generalize Reading.reduceOperators 0 reading.forest reading.stack last = reduced
  obtain ⟨forest, stack, value⟩ := reduced
  simp only [kind_token, kind_eq_mark]
  split
  · exact ((carried.regrow forest).restack stack).refused token _
  · rw [reduceAssignments_map]
    generalize Reading.reduceAssignments forest stack value = assigned
    obtain ⟨forest, stack, value⟩ := assigned
    exact ((carried.regrow forest).restack stack).afterExpression token value

theorem afterOperand (last : ExprId) :
    relabel.Carries (reading.afterOperand last token)
      (reading'.afterOperand last (relabel.token token)) := by
  unfold Reading.afterOperand
  rw [infixOp?_token]
  cases Reading.infixOp? token with
  | none => exact carried.endExpression token last
  | some op =>
      dsimp only
      rw [carried.stack_eq, carried.forest_eq, reduceOperators_map]
      generalize Reading.reduceOperators op.level reading.forest reading.stack last = reduced
      obtain ⟨forest, stack, left⟩ := reduced
      exact ((carried.regrow forest).restack (.binary op token.line left :: stack)).turn .operand

theorem afterNameStart (target : Target) :
    relabel.Carries (reading.afterNameStart target token)
      (reading'.afterNameStart (relabel.target target) (relabel.token token)) := by
  unfold Reading.afterNameStart
  simp only [kind_token, kind_eq_mark]
  split
  · exact (carried.push (.assign target token.line)).turn .expression
  · have added := relabel.addExpr_forest reading.forest target.line (.name target.name)
    unfold Reading.addExpr
    rw [carried.forest_eq]
    simp only [exprForm, Relabelling.target] at added ⊢
    rw [added]
    exact (carried.regrow _).afterOperand token _

theorem statement :
    relabel.Carries (reading.statement token) (reading'.statement (relabel.token token)) := by
  have expression := (carried.push (.exprStatement token.line)).expression token
  obtain ⟨kind, line⟩ := token
  cases kind with
  | mark sign =>
      cases sign with
      | leftBrace => exact (carried.push (.block line [])).turn .sequence
      | _ => exact expression
  | keyword word =>
      cases word with
      | «if» => exact carried.turn (.openCondition .branch line)
      | «while» => exact carried.turn (.openCondition .loop line)
      | read => exact carried.turn (.readTarget line)
      | write => exact carried.turn (.writeStart line)
      | «return» => exact carried.turn (.leaveEnd line)
      | _ => exact expression
  | _ => exact expression

theorem sequence :
    relabel.Carries (reading.sequence token) (reading'.sequence (relabel.token token)) := by
  have statement := carried.statement token
  obtain ⟨kind, line⟩ := token
  cases kind with
  | mark sign =>
      cases sign with
      | rightBrace => exact carried.closeBlock
      | _ => exact statement
  | endOfFile => exact carried.endInput ⟨.endOfFile, line⟩
  | _ => exact statement

theorem openCondition
    (construct : Construct)
    (line : Line) :
    relabel.Carries (reading.openCondition construct line token)
      (reading'.openCondition construct (relabel.line line) (relabel.token token)) :=
  carried.closing token ((carried.push (.condition construct line)).turn .expression) _

theorem writeStart (line : Line) :
    relabel.Carries (reading.writeStart line token)
      (reading'.writeStart (relabel.line line) (relabel.token token)) := by
  have expression := (carried.push (.writeValue line)).expression token
  obtain ⟨kind, tokenLine⟩ := token
  cases kind with
  | text bytes => exact carried.turn (.textEnd line bytes)
  | _ => exact expression

theorem textEnd
    (line : Line)
    (bytes : List UInt8) :
    relabel.Carries (reading.textEnd line bytes token)
      (reading'.textEnd (relabel.line line) bytes (relabel.token token)) := by
  have failed := carried.unexpected token (Token.Kind.mark .semicolon).describe
  obtain ⟨kind, tokenLine⟩ := token
  cases kind with
  | mark sign =>
      cases sign with
      | semicolon =>
          unfold Reading.textEnd
          simp only [Relabelling.token, Relabelling.kind]
          rw [carried.forest_eq, relabel.addText_forest]
          exact (carried.regrow (reading.forest.addText line bytes).2).turn
            (.completed (reading.forest.addText line bytes).1)
      | comma => exact carried.refused ⟨.mark .comma, tokenLine⟩ _
      | _ => exact failed
  | _ => exact failed

theorem readTarget (line : Line) :
    relabel.Carries (reading.readTarget line token)
      (reading'.readTarget (relabel.line line) (relabel.token token)) := by
  obtain ⟨kind, tokenLine⟩ := token
  cases kind with
  | name spelling => exact carried.turn (.readEnd line ⟨spelling, tokenLine⟩)
  | _ => exact carried.unexpected ⟨_, tokenLine⟩ _

theorem readEnd
    (line : Line)
    (target : Target) :
    relabel.Carries (reading.readEnd line target token)
      (reading'.readEnd (relabel.line line) (relabel.target target) (relabel.token token)) := by
  have failed := carried.unexpected token (Token.Kind.mark .semicolon).describe
  obtain ⟨kind, tokenLine⟩ := token
  cases kind with
  | mark sign =>
      cases sign with
      | semicolon => exact carried.complete line (.read target .plain)
      | comma => exact carried.turn (.formatWord (.read line target))
      | _ => exact failed
  | _ => exact failed

theorem formatWord (transfer : Reading.Transfer) :
    relabel.Carries (reading.formatWord transfer token)
      (reading'.formatWord (relabel.transfer transfer) (relabel.token token)) := by
  unfold Reading.formatWord
  simp only [kind_token, kind_eq_keyword]
  split
  · exact carried.turn (.formatEnd transfer)
  · exact carried.unexpected token _

theorem formatEnd (transfer : Reading.Transfer) :
    relabel.Carries (reading.formatEnd transfer token)
      (reading'.formatEnd (relabel.transfer transfer) (relabel.token token)) := by
  cases transfer with
  | read line target =>
      exact carried.closing token (carried.complete line (.read target .hex)) _
  | write line value =>
      exact carried.closing token (carried.complete line (.write value .hex)) _

theorem leaveEnd (line : Line) :
    relabel.Carries (reading.leaveEnd line token)
      (reading'.leaveEnd (relabel.line line) (relabel.token token)) :=
  carried.closing token (carried.complete line .leave) _

theorem declaration :
    relabel.Carries (reading.declaration token) (reading'.declaration (relabel.token token)) := by
  have sequence := carried.sequence token
  obtain ⟨kind, line⟩ := token
  cases kind with
  | keyword word =>
      cases word with
      | int => exact carried.turn (.declaredName .int)
      | double => exact carried.turn (.declaredName .double)
      | bool => exact carried.turn (.declaredName .bool)
      | _ => exact sequence
  | _ => exact sequence

theorem programWord :
    relabel.Carries (reading.programWord token) (reading'.programWord (relabel.token token)) := by
  have reported := carried.report
    (relabel.repeatsError_unexpected token (Token.Kind.keyword .program).describe)
  have continued := reported.declaration token
  obtain ⟨kind, line⟩ := token
  cases kind with
  | keyword word =>
      cases word with
      | program => exact carried.turn .openingBrace
      | _ => exact continued
  | mark sign =>
      cases sign with
      | leftBrace => exact reported.turn .declarations
      | _ => exact continued
  | _ => exact continued

theorem openingBrace :
    relabel.Carries (reading.openingBrace token) (reading'.openingBrace (relabel.token token)) := by
  unfold Reading.openingBrace
  simp only [kind_token, kind_eq_mark]
  split
  · exact carried.turn .declarations
  · exact (carried.report (relabel.repeatsError_unexpected token _)).declaration token

theorem declaredName (type : ValueType) :
    relabel.Carries (reading.declaredName type token)
      (reading'.declaredName type (relabel.token token)) := by
  obtain ⟨kind, line⟩ := token
  cases kind with
  | name spelling =>
      unfold Reading.declaredName
      exact { carried with
        mode_eq := rfl
        declarations_eq := by
          simp only [carried.declarations_eq, Array.map_push]
          rfl }
  | _ => exact carried.failDeclaration ⟨_, line⟩ (relabel.repeatsError_unexpected ⟨_, line⟩ _)

theorem afterName (type : ValueType) :
    relabel.Carries (reading.afterName type token)
      (reading'.afterName type (relabel.token token)) := by
  have failed := carried.failDeclaration token
    (relabel.repeatsError_unexpected token (Token.Kind.mark .semicolon).describe)
  obtain ⟨kind, line⟩ := token
  cases kind with
  | mark sign =>
      cases sign with
      | comma => exact carried.turn (.declaredName type)
      | semicolon => exact carried.turn .declarations
      | _ => exact failed
  | _ => exact failed

theorem afterProgram :
    relabel.Carries (reading.afterProgram token) (reading'.afterProgram (relabel.token token)) := by
  have reported := carried.report (relabel.repeatsError_trailing token)
  obtain ⟨kind, line⟩ := token
  cases kind with
  | endOfFile => exact carried.turn .ended
  | _ => exact reported.turn .ended

end Updates

/-- Settling a statement on relabelled frames settles it in the relabelled place. -/
theorem settle
    (carried : relabel.Carries reading reading')
    (token : Token)
    (frames : List Reading.Frame)
    (last : StmtId) :
    relabel.Carries (Reading.settle token reading frames last)
      (Reading.settle (relabel.token token) reading' (frames.map relabel.frame) last) := by
  induction frames generalizing reading reading' last with
  | nil =>
      have placed : relabel.Carries
          { reading with stack := [], body := last :: reading.body }
          { reading' with stack := [], body := last :: reading'.body } :=
        { carried with stack_eq := rfl, body_eq := congrArg (last :: ·) carried.body_eq }
      exact placed.sequence token
  | cons frame outer inductionHypothesis =>
      -- A statement that the one before completes goes into both forests.
      have added (line : Line) (form : StmtForm) :
          relabel.Carries
            (Reading.settle token { reading with forest := (reading.forest.addStmt line form).2 }
              outer (reading.forest.addStmt line form).1)
            (Reading.settle (relabel.token token)
              { reading' with
                forest := (reading'.forest.addStmt (relabel.line line) (relabel.stmtForm form)).2 }
              (outer.map relabel.frame)
              (reading'.forest.addStmt (relabel.line line) (relabel.stmtForm form)).1) := by
        rw [carried.forest_eq, relabel.addStmt_forest]
        exact inductionHypothesis (carried.regrow _) _
      cases frame with
      | yesBranch line condition =>
          simp only [List.map_cons, Relabelling.frame, Reading.settle, kind_token, kind_eq_keyword]
          split
          · exact (carried.restack (.noBranch line condition last :: outer)).turn .statement
          · exact added line (.branch condition last none)
      | noBranch line condition yes => exact added line (.branch condition yes (some last))
      | loopBody line condition => exact added line (.loop condition last)
      | block line body =>
          exact (carried.restack (.block line (last :: body) :: outer)).sequence token
      | _ => exact inductionHypothesis carried last

/-- Reading one relabelled token leads from a relabelled state to the relabelled state. -/
theorem feed
    (carried : relabel.Carries reading reading')
    (token : Token) :
    relabel.Carries (reading.feed token) (reading'.feed (relabel.token token)) := by
  unfold Reading.feed
  rw [carried.mode_eq]
  cases reading.mode with
  | programWord => exact carried.programWord token
  | openingBrace => exact carried.openingBrace token
  | declarations => exact carried.declaration token
  | declaredName type => exact carried.declaredName token type
  | afterName type => exact carried.afterName token type
  | skippingDeclaration => exact carried.resume token .declarations .skippingDeclaration
  | sequence => exact carried.sequence token
  | statement => exact carried.statement token
  | completed last =>
      have settled := carried.settle token reading.stack last
      rw [← carried.stack_eq] at settled
      exact settled
  | skipping => exact carried.resume token .sequence .skipping
  | openCondition construct line => exact carried.openCondition token construct line
  | expression => exact carried.expression token
  | operand => exact carried.operand token
  | nameStart target => exact carried.afterNameStart token target
  | opened line => exact carried.afterParen token line
  | castEnd line op type => exact carried.afterCastType token line op type
  | value last => exact carried.afterOperand token last
  | writeStart line => exact carried.writeStart token line
  | textEnd line bytes => exact carried.textEnd token line bytes
  | readTarget line => exact carried.readTarget token line
  | readEnd line target => exact carried.readEnd token line target
  | formatWord transfer => exact carried.formatWord token transfer
  | formatEnd transfer => exact carried.formatEnd token transfer
  | leaveEnd line => exact carried.leaveEnd token line
  | closed => exact carried.afterProgram token
  | ended => exact carried

/-- Reading relabelled tokens leads from a relabelled state to the relabelled state. -/
theorem feedAll
    (carried : relabel.Carries reading reading')
    (tokens : List Token) :
    relabel.Carries (reading.feedAll tokens) (reading'.feedAll (tokens.map relabel.token)) := by
  induction tokens generalizing reading reading' with
  | nil => exact carried
  | cons token rest inductionHypothesis => exact inductionHypothesis (carried.feed token)

end Carries

/-- The tokens that are read for relabelled tokens are the relabelled ones. -/
theorem input_map
    (relabel : Relabelling)
    (tokens : List Token) :
    Reading.input (tokens.map relabel.token) = (Reading.input tokens).map relabel.token := by
  have isEnd (token : Token) :
      ((relabel.token token).kind == .endOfFile) = (token.kind == .endOfFile) := by
    rw [Bool.eq_iff_iff]
    simp
  unfold Reading.input
  rw [List.getLast?_map]
  cases tokens.getLast? with
  | none => simp [Relabelling.token, Relabelling.kind, relabel.line_zero]
  | some last =>
      simp only [Option.map_some, List.any_map, Function.comp_def, isEnd]
      split
      · rfl
      · simp

/-- The reading of relabelled tokens ends in the relabelled state. -/
theorem carries_ofTokens
    (relabel : Relabelling)
    (tokens : List Token) :
    relabel.Carries (Reading.ofTokens tokens) (Reading.ofTokens (tokens.map relabel.token)) := by
  unfold Reading.ofTokens
  rw [relabel.input_map]
  exact (Carries.start relabel).feedAll _

end Relabelling
end MiniLang
