import MiniLang.Program
import MiniLang.Reading.SyntaxError

/-!
# The state of a reading

A program is read token by token.  What has been begun and not yet ended stands on a stack of
frames, innermost first; the mode says what the next token may be.  Nodes go into the forest as soon
as they are complete, so those of a construct that turns out to be broken stay behind in it.
-/

namespace MiniLang

namespace Reading

/-- Something that has been begun and waits for what comes inside it. -/
inductive Frame where
  /-- A parenthesis in an expression. -/
  | group
  /-- A prefix operator before its operand. -/
  | unary (op : UnaryOp) (line : Line)
  /-- An infix operator before its right operand. -/
  | binary (op : BinaryOp) (line : Line) (left : ExprId)
  /-- An assignment before its value. -/
  | assign (target : Target) (line : Line)
  /-- The condition of a branch or loop. -/
  | condition (construct : Construct) (line : Line)
  /-- The value of a write statement. -/
  | writeValue (line : Line)
  /-- The expression of an expression statement. -/
  | exprStatement (line : Line)
  /-- The statement under a condition. -/
  | yesBranch (line : Line) (condition : ExprId)
  /-- The statement after the alternative word. -/
  | noBranch (line : Line) (condition : ExprId) (yes : StmtId)
  /-- The statement that a loop repeats. -/
  | loopBody (line : Line) (condition : ExprId)
  /-- A block, with the statements read so far, last one first. -/
  | block (line : Line) (body : List StmtId)
  deriving DecidableEq, Repr

/-- Whether a frame is an open block. -/
def Frame.isBlock : Frame -> Bool
  | .block _ _ => true
  | _ => false

/-- A read or write statement of which only the format is missing. -/
inductive Transfer where
  | read (line : Line) (target : Target)
  | write (line : Line) (value : ExprId)
  deriving DecidableEq, Repr

/-- What the next token may be. -/
inductive Mode where
  /-- The word that opens the program. -/
  | programWord
  /-- The brace that opens the program. -/
  | openingBrace
  /-- A declaration, or the first statement. -/
  | declarations
  /-- The name of a declared variable. -/
  | declaredName (type : ValueType)
  /-- What follows the name of a declared variable. -/
  | afterName (type : ValueType)
  /-- The end of a broken declaration. -/
  | skippingDeclaration
  /-- A statement, or the brace that ends the block. -/
  | sequence
  /-- A statement. -/
  | statement
  /-- What follows a complete statement. -/
  | completed (statement : StmtId)
  /-- The end of a broken statement. -/
  | skipping
  /-- The parenthesis that opens a condition. -/
  | openCondition (construct : Construct) (line : Line)
  /-- An expression. -/
  | expression
  /-- An operand of an operator. -/
  | operand
  /-- What follows a name at the start of an expression: it may be the target of an assignment. -/
  | nameStart (target : Target)
  /-- What follows an opening parenthesis: it may be that of a cast. -/
  | opened (line : Line)
  /-- What follows a type after an opening parenthesis. -/
  | castEnd (line : Line) (op : UnaryOp) (type : Token)
  /-- What follows a complete operand. -/
  | value (expression : ExprId)
  /-- What a write statement writes. -/
  | writeStart (line : Line)
  /-- What follows a string to be written. -/
  | textEnd (line : Line) (bytes : List UInt8)
  /-- The variable of a read statement. -/
  | readTarget (line : Line)
  /-- What follows the variable of a read statement. -/
  | readEnd (line : Line) (target : Target)
  /-- The word for the format. -/
  | formatWord (transfer : Transfer)
  /-- What follows the word for the format. -/
  | formatEnd (transfer : Transfer)
  /-- What follows the word that leaves the program. -/
  | leaveEnd (line : Line)
  /-- What follows the closing brace of the program. -/
  | closed
  /-- Nothing counts any more. -/
  | ended
  deriving DecidableEq, Repr

end Reading

open Reading in
/-- The state of a reading. -/
structure Reading where
  mode : Mode := .programWord
  /-- The open frames, innermost first. -/
  stack : List Frame := []
  /-- The statements of the program's body so far, last one first. -/
  body : List StmtId := []
  /-- The declarations so far. -/
  declarations : Array Declaration := #[]
  forest : Forest := {}
  /-- The errors reported so far. -/
  errors : Array SyntaxError := #[]
  /-- Whether it has been reported that the tokens end too early. -/
  endReported : Bool := false
  deriving DecidableEq, Repr

namespace Reading

/-- Before the first token. -/
def start : Reading := {}

/-- Report an error.  That the tokens end too early is reported once. -/
def report (reading : Reading) (error : SyntaxError) : Reading :=
  if error.atEnd then
    if reading.endReported then reading
    else { reading with errors := reading.errors.push error, endReported := true }
  else { reading with errors := reading.errors.push error }

/-- Add an expression, which becomes the operand read last. -/
def addExpr (reading : Reading) (line : Line) (form : ExprForm) : ExprId × Reading :=
  let added := reading.forest.addExpr line form
  (added.1, { reading with forest := added.2 })

/-- Add a statement that is complete. -/
def complete (reading : Reading) (line : Line) (form : StmtForm) : Reading :=
  let added := reading.forest.addStmt line form
  { reading with forest := added.2, mode := .completed added.1 }

/-- The tokens end: the brace that closes the program is missing. -/
def endInput (reading : Reading) (token : Token) : Reading :=
  { reading.report (.missing token .rightBrace) with mode := .ended }

/-- A closing brace ends the innermost block or the program. -/
def closeBlock (reading : Reading) : Reading :=
  match reading.stack with
  | .block line body :: outer =>
    { reading with stack := outer }.complete line (.block body.reverse)
  | _ => { reading with mode := .closed }

/-- After an error, reading goes on behind the next semicolon or at the next closing brace. -/
def resume (reading : Reading) (token : Token) (next skip : Mode) : Reading :=
  match token.kind with
  | .mark .semicolon => { reading with mode := next }
  | .mark .rightBrace => reading.closeBlock
  | .endOfFile => reading.endInput token
  | _ => { reading with mode := skip }

/-- Go on after a broken statement, inside the innermost open block. -/
def resumeStatement (reading : Reading) (token : Token) : Reading :=
  reading.resume token .sequence .skipping

/-- Go on after a broken declaration. -/
def resumeDeclaration (reading : Reading) (token : Token) : Reading :=
  reading.resume token .declarations .skippingDeclaration

/-- Give up the statement that is being read. -/
def fail (reading : Reading) (token : Token) (error : SyntaxError) : Reading :=
  let reported := reading.report error
  { reported with stack := reported.stack.dropWhile (fun frame => !frame.isBlock) }.resumeStatement
    token

/-- Give up the declaration that is being read. -/
def failDeclaration (reading : Reading) (token : Token) (error : SyntaxError) : Reading :=
  (reading.report error).resumeDeclaration token

end Reading

end MiniLang
