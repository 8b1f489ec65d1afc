import MiniLang.Reading.Program

/-!
# Errors stay

A step of a reading does nothing to the errors but report further ones.  So whatever a report keeps,
a whole reading keeps: an error that has been reported stays, and where the last state has none, no
token on the way was refused.
-/

namespace MiniLang

/-- The errors that reading reports, each in its own wording. -/
inductive SyntaxError.Worded : SyntaxError -> Prop where
  | missing (found : Token) (mark : Mark) : Worded (.missing found mark)
  | missingWord (found : Token) (word : Keyword) : Worded (.missingWord found word)
  | missingName (found : Token) : Worded (.missingName found)
  | missingExpression (found : Token) : Worded (.missingExpression found)
  | badTarget (sign : Token) : Worded (.badTarget sign)
  | hexText (comma : Token) : Worded (.hexText comma)
  | trailing (found : Token) : Worded (.trailing found)

namespace Reading

/-- The errors of a reading, and whether one of them says that the tokens end too early. -/
def ledger (reading : Reading) : Array SyntaxError × Bool :=
  (reading.errors, reading.endReported)

/-- A property of the errors that one more report keeps. -/
structure ErrorLaw where
  Holds : Array SyntaxError × Bool -> Prop
  report : ∀ (reading : Reading) (error : SyntaxError), error.Worded -> Holds reading.ledger ->
    Holds (reading.report error).ledger

/-- The errors of a reading have a property that reports keep. -/
def Meets (reading : Reading) (law : ErrorLaw) : Prop :=
  law.Holds reading.ledger

namespace Meets

variable {law : ErrorLaw} {reading : Reading}

theorem report
    (kept : reading.Meets law)
    {error : SyntaxError}
    (worded : error.Worded) :
    (reading.report error).Meets law :=
  law.report reading error worded kept

theorem closeBlock (kept : reading.Meets law) : reading.closeBlock.Meets law := by
  unfold Reading.closeBlock
  split <;> exact kept

variable (token : Token)

theorem endInput (kept : reading.Meets law) : (reading.endInput token).Meets law :=
  kept.report (.missing token .rightBrace)

theorem resume
    (kept : reading.Meets law)
    (next skip : Mode) :
    (reading.resume token next skip).Meets law := by
  unfold Reading.resume
  split
  · exact kept
  · exact kept.closeBlock
  · exact kept.endInput token
  · exact kept

theorem fail
    (kept : reading.Meets law)
    {error : SyntaxError}
    (worded : error.Worded) :
    (reading.fail token error).Meets law := by
  apply resume
  exact kept.report worded

theorem failDeclaration
    (kept : reading.Meets law)
    {error : SyntaxError}
    (worded : error.Worded) :
    (reading.failDeclaration token error).Meets law :=
  resume token (kept.report worded) _ _

theorem operand (kept : reading.Meets law) : (reading.operand token).Meets law := by
  unfold Reading.operand
  cases token.kind with
  | keyword word => cases word <;> first | exact kept | exact fail _ kept (.missingExpression token)
  | mark mark => cases mark <;> first | exact kept | exact fail _ kept (.missingExpression token)
  | text bytes => exact fail _ kept (.missingExpression token)
  | endOfFile => exact fail _ kept (.missingExpression token)
  | _ => exact kept

theorem expression (kept : reading.Meets law) : (reading.expression token).Meets law := by
  unfold Reading.expression
  split
  · exact kept
  · exact kept.operand token

theorem afterParen
    (kept : reading.Meets law)
    (line : Line) :
    (reading.afterParen line token).Meets law := by
  unfold Reading.afterParen
  split
  · split
    · exact kept
    · exact expression token kept
  · exact expression token kept

theorem afterCastType
    (kept : reading.Meets law)
    (line : Line)
    (op : UnaryOp)
    (type : Token) :
    (reading.afterCastType line op type token).Meets law := by
  unfold Reading.afterCastType
  split
  · exact kept
  · exact kept.fail token (.missingExpression type)

theorem afterExpression
    (kept : reading.Meets law)
    (value : ExprId) :
    (reading.afterExpression value token).Meets law := by
  unfold Reading.afterExpression
  split
  case h_3 =>
    dsimp only
    split
    · exact kept
    · exact kept
    · exact kept.fail token (.missing token .semicolon)
  case h_5 => exact kept
  all_goals
    split
    · exact kept
    · exact kept.fail token (.missing token _)

theorem afterOperand
    (kept : reading.Meets law)
    (last : ExprId) :
    (reading.afterOperand last token).Meets law := by
  unfold Reading.afterOperand
  split
  · exact kept
  · dsimp only [endExpression]
    split
    · apply fail token _ (.badTarget token)
      exact kept
    · apply afterExpression
      exact kept

theorem afterNameStart
    (kept : reading.Meets law)
    (target : Target) :
    (reading.afterNameStart target token).Meets law := by
  unfold Reading.afterNameStart
  split
  · exact kept
  · apply afterOperand
    exact kept

theorem statement (kept : reading.Meets law) : (reading.statement token).Meets law := by
  unfold Reading.statement
  split
  case h_7 => exact expression token kept
  all_goals exact kept

theorem sequence (kept : reading.Meets law) : (reading.sequence token).Meets law := by
  unfold Reading.sequence
  split
  · exact kept.closeBlock
  · exact kept.endInput token
  · exact kept.statement token

theorem settle
    (kept : reading.Meets law)
    (frames : List Frame)
    (last : StmtId) :
    (Reading.settle token reading frames last).Meets law := by
  induction frames generalizing reading last with
  | nil => exact sequence token kept
  | cons frame outer inductionHypothesis =>
      cases frame with
      | yesBranch line condition =>
          unfold Reading.settle
          split
          · exact kept
          · apply inductionHypothesis
            exact kept
      | block line body => exact sequence token kept
      | _ =>
          apply inductionHypothesis
          exact kept

theorem openCondition
    (kept : reading.Meets law)
    (construct : Construct)
    (line : Line) :
    (reading.openCondition construct line token).Meets law := by
  unfold Reading.openCondition
  split
  · exact kept
  · exact kept.fail token (.missing token .leftParen)

theorem writeStart
    (kept : reading.Meets law)
    (line : Line) :
    (reading.writeStart line token).Meets law := by
  unfold Reading.writeStart
  split
  · exact kept
  · exact expression token kept

theorem textEnd
    (kept : reading.Meets law)
    (line : Line)
    (bytes : List UInt8) :
    (reading.textEnd line bytes token).Meets law := by
  unfold Reading.textEnd
  split
  · exact kept
  · exact kept.fail token (.hexText token)
  · exact kept.fail token (.missing token .semicolon)

theorem readTarget
    (kept : reading.Meets law)
    (line : Line) :
    (reading.readTarget line token).Meets law := by
  unfold Reading.readTarget
  split
  · exact kept
  · exact kept.fail token (.missingName token)

theorem readEnd
    (kept : reading.Meets law)
    (line : Line)
    (target : Target) :
    (reading.readEnd line target token).Meets law := by
  unfold Reading.readEnd
  split
  · exact kept
  · exact kept
  · exact kept.fail token (.missing token .semicolon)

theorem formatWord
    (kept : reading.Meets law)
    (transfer : Transfer) :
    (reading.formatWord transfer token).Meets law := by
  unfold Reading.formatWord
  split
  · exact kept
  · exact kept.fail token (.missingWord token .hex)

theorem formatEnd
    (kept : reading.Meets law)
    (transfer : Transfer) :
    (reading.formatEnd transfer token).Meets law := by
  unfold Reading.formatEnd
  split
  · split <;> exact kept
  · exact kept.fail token (.missing token .semicolon)

theorem leaveEnd
    (kept : reading.Meets law)
    (line : Line) :
    (reading.leaveEnd line token).Meets law := by
  unfold Reading.leaveEnd
  split
  · exact kept
  · exact kept.fail token (.missing token .semicolon)

theorem declaration (kept : reading.Meets law) : (reading.declaration token).Meets law := by
  unfold Reading.declaration
  split
  · split
    · exact kept
    · exact kept.sequence token
  · exact kept.sequence token

theorem programWord (kept : reading.Meets law) : (reading.programWord token).Meets law := by
  unfold Reading.programWord
  split
  · exact kept
  · exact kept.report (.missingWord token .program)
  · exact (kept.report (.missingWord token .program)).declaration token

theorem openingBrace (kept : reading.Meets law) :
    (reading.openingBrace token).Meets law := by
  unfold Reading.openingBrace
  split
  · exact kept
  · exact (kept.report (.missing token .leftBrace)).declaration token

theorem declaredName
    (kept : reading.Meets law)
    (type : ValueType) :
    (reading.declaredName type token).Meets law := by
  unfold Reading.declaredName
  split
  · exact kept
  · exact kept.failDeclaration token (.missingName token)

theorem afterName
    (kept : reading.Meets law)
    (type : ValueType) :
    (reading.afterName type token).Meets law := by
  unfold Reading.afterName
  split
  · exact kept
  · exact kept
  · exact kept.failDeclaration token (.missing token .semicolon)

theorem afterProgram (kept : reading.Meets law) :
    (reading.afterProgram token).Meets law := by
  unfold Reading.afterProgram
  split
  · exact kept
  · exact kept.report (.trailing token)

/-- Reading one token keeps the errors. -/
theorem feed (kept : reading.Meets law) : (reading.feed token).Meets law := by
  unfold Reading.feed
  cases reading.mode with
  | programWord => exact kept.programWord token
  | openingBrace => exact kept.openingBrace token
  | declarations => exact kept.declaration token
  | declaredName type => exact kept.declaredName token type
  | afterName type => exact kept.afterName token type
  | skippingDeclaration => exact kept.resume token _ _
  | sequence => exact kept.sequence token
  | statement => exact kept.statement token
  | completed last => exact kept.settle token _ last
  | skipping => exact kept.resume token _ _
  | openCondition construct line => exact kept.openCondition token construct line
  | expression => exact kept.expression token
  | operand => exact kept.operand token
  | nameStart target => exact kept.afterNameStart token target
  | opened line => exact kept.afterParen token line
  | castEnd line op type => exact kept.afterCastType token line op type
  | value last => exact kept.afterOperand token last
  | writeStart line => exact kept.writeStart token line
  | textEnd line bytes => exact kept.textEnd token line bytes
  | readTarget line => exact kept.readTarget token line
  | readEnd line target => exact kept.readEnd token line target
  | formatWord transfer => exact kept.formatWord token transfer
  | formatEnd transfer => exact kept.formatEnd token transfer
  | leaveEnd line => exact kept.leaveEnd token line
  | closed => exact kept.afterProgram token
  | ended => exact kept

/-- Reading any tokens keeps the errors. -/
theorem feedAll
    (kept : reading.Meets law)
    (tokens : List Token) :
    (reading.feedAll tokens).Meets law := by
  induction tokens generalizing reading with
  | nil => exact kept
  | cons token rest inductionHypothesis => exact inductionHypothesis (kept.feed token)

end Meets

/-- An error has been reported. -/
def someError : ErrorLaw where
  Holds ledger := ledger.1 ≠ #[] ∨ ledger.2 = true
  report reading error _ reported := by
    unfold report
    split
    · split
      · exact reported
      · exact .inr rfl
    · exact .inl (by simp [ledger])

/-- If it has been reported that the tokens end too early, this is one of the errors. -/
def endCounted : ErrorLaw where
  Holds ledger := ledger.2 = true -> ledger.1 ≠ #[]
  report reading error _ counted := by
    unfold report
    split
    · split
      · exact counted
      · exact fun _ => by simp [ledger]
    · exact fun _ => by simp [ledger]

/-- An error has been reported. -/
abbrev Broken (reading : Reading) : Prop :=
  reading.Meets someError

theorem broken_report (reading : Reading) (error : SyntaxError) : (reading.report error).Broken := by
  unfold report
  split
  · split
    · next reported => exact .inr reported
    · exact .inr rfl
  · exact .inl (by simp [ledger])

/-- To give up a statement is to report an error. -/
theorem broken_fail (reading : Reading) (token : Token) (error : SyntaxError) :
    (reading.fail token error).Broken := by
  apply Meets.resume
  exact broken_report reading error

/-- To give up a declaration is to report an error. -/
theorem broken_failDeclaration (reading : Reading) (token : Token) (error : SyntaxError) :
    (reading.failDeclaration token error).Broken :=
  Meets.resume token (broken_report reading error) _ _

/-- A reading of a list of tokens is broken only if it has errors. -/
theorem not_broken_of_errors
    {tokens : List Token}
    (errors_eq : (start.feedAll tokens).errors = #[]) :
    ¬(start.feedAll tokens).Broken := by
  have started : start.Meets endCounted := fun reported => Bool.noConfusion reported
  have counted := started.feedAll tokens
  rintro (listed | reported)
  · exact listed errors_eq
  · exact counted reported errors_eq

end Reading
end MiniLang
