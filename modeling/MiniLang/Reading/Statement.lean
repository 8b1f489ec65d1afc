import MiniLang.Reading.Expression

/-!
# Reading statements

A statement is complete at its semicolon or closing brace.  Only the token after it shows whether an
alternative belongs to the branch that it stands under, so complete statements are put into place
when that token arrives.
-/

namespace MiniLang
namespace Reading

/-- A token where a statement has to start. -/
def statement (reading : Reading) (token : Token) : Reading :=
  match token.kind with
  | .mark .leftBrace =>
    { reading with stack := .block token.line [] :: reading.stack, mode := .sequence }
  | .keyword .if => { reading with mode := .openCondition .branch token.line }
  | .keyword .while => { reading with mode := .openCondition .loop token.line }
  | .keyword .read => { reading with mode := .readTarget token.line }
  | .keyword .write => { reading with mode := .writeStart token.line }
  | .keyword .return => { reading with mode := .leaveEnd token.line }
  | _ => { reading with stack := .exprStatement token.line :: reading.stack }.expression token

/-- A token where a statement may start or the innermost block may end. -/
def sequence (reading : Reading) (token : Token) : Reading :=
  match token.kind with
  | .mark .rightBrace => reading.closeBlock
  | .endOfFile => reading.endInput token
  | _ => reading.statement token

/-- Put a complete statement into place, given the token after it. -/
def settle (token : Token) (reading : Reading) : List Frame -> StmtId -> Reading
  | .yesBranch line condition :: outer, yes =>
    if token.kind = .keyword .else then
      { reading with stack := .noBranch line condition yes :: outer, mode := .statement }
    else
      let added := reading.forest.addStmt line (.branch condition yes none)
      settle token { reading with forest := added.2 } outer added.1
  | .noBranch line condition yes :: outer, no =>
    let added := reading.forest.addStmt line (.branch condition yes (some no))
    settle token { reading with forest := added.2 } outer added.1
  | .loopBody line condition :: outer, body =>
    let added := reading.forest.addStmt line (.loop condition body)
    settle token { reading with forest := added.2 } outer added.1
  | .block line body :: outer, last =>
    { reading with stack := .block line (last :: body) :: outer }.sequence token
  | _ :: outer, last => settle token reading outer last
  | [], last => { reading with stack := [], body := last :: reading.body }.sequence token

/-- A token after the word that opens a condition. -/
def openCondition (reading : Reading) (construct : Construct) (line : Line) (token : Token) :
    Reading :=
  if token.kind = .mark .leftParen then
    { reading with stack := .condition construct line :: reading.stack, mode := .expression }
  else reading.fail token (.missing token .leftParen)

/-- A token after the word that writes. -/
def writeStart (reading : Reading) (line : Line) (token : Token) : Reading :=
  match token.kind with
  | .text bytes => { reading with mode := .textEnd line bytes }
  | _ => { reading with stack := .writeValue line :: reading.stack }.expression token

/-- A token after a string to be written.  The string becomes a constant at the semicolon. -/
def textEnd (reading : Reading) (line : Line) (bytes : List UInt8) (token : Token) : Reading :=
  match token.kind with
  | .mark .semicolon =>
    let added := reading.forest.addText line bytes
    { reading with forest := added.2, mode := .completed added.1 }
  | .mark .comma => reading.fail token (.hexText token)
  | _ => reading.fail token (.missing token .semicolon)

/-- A token after the word that reads. -/
def readTarget (reading : Reading) (line : Line) (token : Token) : Reading :=
  match token.kind with
  | .name spelling => { reading with mode := .readEnd line ⟨spelling, token.line⟩ }
  | _ => reading.fail token (.missingName token)

/-- A token after the variable of a read statement. -/
def readEnd (reading : Reading) (line : Line) (target : Target) (token : Token) : Reading :=
  match token.kind with
  | .mark .semicolon => reading.complete line (.read target .plain)
  | .mark .comma => { reading with mode := .formatWord (.read line target) }
  | _ => reading.fail token (.missing token .semicolon)

/-- A token where the word for the format has to stand. -/
def formatWord (reading : Reading) (transfer : Transfer) (token : Token) : Reading :=
  if token.kind = .keyword .hex then { reading with mode := .formatEnd transfer }
  else reading.fail token (.missingWord token .hex)

/-- A token after the word for the format. -/
def formatEnd (reading : Reading) (transfer : Transfer) (token : Token) : Reading :=
  if token.kind = .mark .semicolon then
    match transfer with
    | .read line target => reading.complete line (.read target .hex)
    | .write line value => reading.complete line (.write value .hex)
  else reading.fail token (.missing token .semicolon)

/-- A token after the word that leaves the program. -/
def leaveEnd (reading : Reading) (line : Line) (token : Token) : Reading :=
  if token.kind = .mark .semicolon then reading.complete line .leave
  else reading.fail token (.missing token .semicolon)

end Reading
end MiniLang
