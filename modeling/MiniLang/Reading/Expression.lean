import MiniLang.Reading.State

/-!
# Reading expressions

An operator waits on the stack until the token after its last operand shows that no tighter operator
takes that operand away.
-/

namespace MiniLang
namespace Reading

/-- Add the nodes of all waiting operators that bind at least as tightly as a level, given the
operand read last. -/
def reduceOperators (level : Nat) (forest : Forest) : List Frame -> ExprId ->
    Forest × List Frame × ExprId
  | .unary op line :: outer, operand =>
    let added := forest.addExpr line (.unary op operand)
    reduceOperators level added.2 outer added.1
  | .binary op line left :: outer, right =>
    if level <= op.level then
      let added := forest.addExpr line (.binary op left right)
      reduceOperators level added.2 outer added.1
    else (forest, .binary op line left :: outer, right)
  | stack, operand => (forest, stack, operand)

/-- Add the nodes of all waiting assignments, given the value read last. -/
def reduceAssignments (forest : Forest) : List Frame -> ExprId -> Forest × List Frame × ExprId
  | .assign target line :: outer, value =>
    let added := forest.addExpr line (.assign target value)
    reduceAssignments added.2 outer added.1
  | stack, value => (forest, stack, value)

/-- An operand without parts. -/
def leaf (reading : Reading) (line : Line) (form : ExprForm) : Reading :=
  let added := reading.addExpr line form
  { added.2 with mode := .value added.1 }

/-- A token where an operand has to start. -/
def operand (reading : Reading) (token : Token) : Reading :=
  match token.kind with
  | .name spelling => reading.leaf token.line (.name spelling)
  | .int value => reading.leaf token.line (.int value)
  | .real bits => reading.leaf token.line (.double bits)
  | .keyword .true => reading.leaf token.line (.bool true)
  | .keyword .false => reading.leaf token.line (.bool false)
  | .mark .leftParen => { reading with mode := .opened token.line }
  | .mark mark =>
    match UnaryOp.ofMark? mark with
    | some op =>
      { reading with stack := .unary op token.line :: reading.stack, mode := .operand }
    | none => reading.fail token (.missingExpression token)
  | _ => reading.fail token (.missingExpression token)

/-- A token where an expression has to start. -/
def expression (reading : Reading) (token : Token) : Reading :=
  match token.kind with
  | .name spelling => { reading with mode := .nameStart ⟨spelling, token.line⟩ }
  | _ => reading.operand token

/-- A token after an opening parenthesis. -/
def afterParen (reading : Reading) (line : Line) (token : Token) : Reading :=
  let grouped := { reading with stack := .group :: reading.stack }
  match token.kind with
  | .keyword word =>
    match UnaryOp.castTo? word with
    | some op => { reading with mode := .castEnd line op token }
    | none => grouped.expression token
  | _ => grouped.expression token

/-- A token after an opening parenthesis and a type: only a cast can begin so. -/
def afterCastType (reading : Reading) (line : Line) (op : UnaryOp) (type token : Token) : Reading :=
  if token.kind = .mark .rightParen then
    { reading with stack := .unary op line :: reading.stack, mode := .operand }
  else reading.fail token (.missingExpression type)

/-- A token after a complete expression, which the innermost frame has been waiting for. -/
def afterExpression (reading : Reading) (value : ExprId) (token : Token) : Reading :=
  match reading.stack with
  | .group :: outer =>
    if token.kind = .mark .rightParen then { reading with stack := outer, mode := .value value }
    else reading.fail token (.missing token .rightParen)
  | .condition construct line :: outer =>
    if token.kind = .mark .rightParen then
      let inside : Frame := match construct with
        | .branch => .yesBranch line value
        | .loop => .loopBody line value
      { reading with stack := inside :: outer, mode := .statement }
    else reading.fail token (.missing token .rightParen)
  | .writeValue line :: outer =>
    let popped := { reading with stack := outer }
    match token.kind with
    | .mark .semicolon => popped.complete line (.write value .plain)
    | .mark .comma => { popped with mode := .formatWord (.write line value) }
    | _ => reading.fail token (.missing token .semicolon)
  | .exprStatement line :: outer =>
    if token.kind = .mark .semicolon then
      { reading with stack := outer }.complete line (.expr value)
    else reading.fail token (.missing token .semicolon)
  | _ => reading

/-- A token that is no infix operator, after a complete operand: the expression ends here. -/
def endExpression (reading : Reading) (last : ExprId) (token : Token) : Reading :=
  let (forest, stack, value) := reduceOperators 0 reading.forest reading.stack last
  let reduced := { reading with forest := forest, stack := stack }
  if token.kind = .mark .assign then reduced.fail token (.badTarget token)
  else
    let (forest, stack, value) := reduceAssignments forest stack value
    { reduced with forest := forest, stack := stack }.afterExpression value token

/-- The infix operator that a token writes. -/
def infixOp? (token : Token) : Option BinaryOp :=
  match token.kind with
  | .mark mark => BinaryOp.ofMark? mark
  | _ => none

/-- A token after a complete operand. -/
def afterOperand (reading : Reading) (last : ExprId) (token : Token) : Reading :=
  match infixOp? token with
  | some op =>
    let (forest, stack, left) := reduceOperators op.level reading.forest reading.stack last
    { reading with
      forest := forest
      stack := .binary op token.line left :: stack
      mode := .operand }
  | none => reading.endExpression last token

/-- A token after a name at the start of an expression. -/
def afterNameStart (reading : Reading) (target : Target) (token : Token) : Reading :=
  if token.kind = .mark .assign then
    { reading with stack := .assign target token.line :: reading.stack, mode := .expression }
  else
    let added := reading.addExpr target.line (.name target.name)
    added.2.afterOperand added.1 token

end Reading
end MiniLang
