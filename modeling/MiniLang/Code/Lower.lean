import MiniLang.Code.Listing
import MiniLang.Code.LowerError
import MiniLang.Program
import MiniLang.Typing.Rules

/-!
# Generating code

Statements and expressions are turned into instructions in the order in which they are evaluated.
Every expression yields the operand that holds its value: a literal or a register.
-/

namespace MiniLang

/-- What the generator knows about the program. -/
structure Lowering.Context where
  scope : Scope
  tags : TagTable
  texts : TextPool

/-- The names given and the lines emitted so far. -/
structure Lowering where
  names : FreshNames := {}
  items : Array Item := #[]
  deriving DecidableEq, Repr

/-- A step of the generator. -/
abbrev LowerM := StateT Lowering (Except LowerError)

namespace Lowering

/-- Emit an instruction. -/
def emit (instr : Instr) : LowerM Unit :=
  modify fun lowering => { lowering with items := lowering.items.push (.instr instr) }

/-- Open a block. -/
def openBlock (label : Label) : LowerM Unit :=
  modify fun lowering =>
    { names := lowering.names.openBlock label.text
      items := lowering.items.push (.label label) }

/-- A new register. -/
def newRegister : LowerM Register :=
  modifyGet fun lowering =>
    let next := lowering.names.register
    (next.1, { lowering with names := next.2 })

/-- A new label. -/
def newLabel : LowerM Label :=
  modifyGet fun lowering =>
    let next := lowering.names.label
    (next.1, { lowering with names := next.2 })

/-- Emit an instruction that defines a new register, which is the operand of its result. -/
def define (instr : Register -> Instr) : LowerM Operand := do
  let register <- newRegister
  emit (instr register)
  return .register register

/-- The type of a tagged expression. -/
def typeAt (context : Context) (site : Site) : LowerM ValueType :=
  match context.tags.get? site.id with
  | none => throw (.untagged site.id site.line)
  | some tag =>
    match tag.type? with
    | some type => pure type
    | none => throw (.standIn tag site.line)

/-- The site of an expression. -/
def siteOf : Expr -> LowerM Site
  | .name site _ => pure site
  | .int site _ => pure site
  | .double site _ => pure site
  | .bool site _ => pure site
  | .unary site _ _ => pure site
  | .binary site _ _ _ => pure site
  | .assign site _ _ => pure site
  | .dangling number => throw (.dangling number)

/-- The type of an expression. -/
def typeOf (context : Context) (expr : Expr) : LowerM ValueType := do
  let site <- siteOf expr
  typeAt context site

/-- The type of the slot of a variable. -/
def slotType (context : Context) (name : String) (line : Line) : LowerM ValueType :=
  match context.scope.lookup name with
  | some declaration => pure declaration.type
  | none => throw (.noSlot name line)

/-- The operand of an integer as a real. -/
def promote (value : Operand) : LowerM Operand :=
  define fun target => .convert target .sitofp value

/-- Bring an operand of one type to another. -/
def coerce (value : Operand) (type wanted : ValueType) : LowerM Operand :=
  if type = .int ∧ wanted = .double then promote value else pure value

/-- The type on which an infix operator works, given the types of its operands. -/
def commonType? (left right : ValueType) : Option ValueType :=
  if left = right then some left
  else if left.isNumeric && right.isNumeric then some .double
  else none

/-- The operation of an infix operator on a type. -/
def operation? : BinaryOp -> ValueType -> Option Operation
  | .add, .int => some (.calculate .add .int)
  | .sub, .int => some (.calculate .sub .int)
  | .mul, .int => some (.calculate .mul .int)
  | .div, .int => some (.calculate .sdiv .int)
  | .bitAnd, .int => some (.calculate .and .int)
  | .bitOr, .int => some (.calculate .or .int)
  | .add, .double => some (.calculateReal .fadd)
  | .sub, .double => some (.calculateReal .fsub)
  | .mul, .double => some (.calculateReal .fmul)
  | .div, .double => some (.calculateReal .fdiv)
  | .eq, .double => some (.compareReal .eq)
  | .ne, .double => some (.compareReal .ne)
  | .gt, .double => some (.compareReal .gt)
  | .ge, .double => some (.compareReal .ge)
  | .lt, .double => some (.compareReal .lt)
  | .le, .double => some (.compareReal .le)
  | .eq, type => some (.compare .eq type)
  | .ne, type => some (.compare .ne type)
  | .gt, .int => some (.compare .gt .int)
  | .ge, .int => some (.compare .ge .int)
  | .lt, .int => some (.compare .lt .int)
  | .le, .int => some (.compare .le .int)
  | _, _ => none

/-- Apply a prefix operator to the operand of a type. -/
def unary (op : UnaryOp) (type : ValueType) (value : Operand) (line : Line) : LowerM Operand :=
  match op, type with
  | .neg, .int => define fun target => .operate target (.calculate .sub .int) (.int 0) value
  | .neg, .double => define fun target => .fneg target value
  | .bitNot, .int => define fun target => .operate target (.calculate .xor .int) value (.int (-1))
  | .not, .bool => define fun target => .operate target (.calculate .xor .bool) value (.bool true)
  | .toInt, .int => pure value
  | .toInt, .double => define fun target => .convert target .fptosi value
  | .toInt, .bool => define fun target => .convert target .zext value
  | .toDouble, .int => promote value
  | .toDouble, .double => pure value
  | _, _ => throw (.unary op.sign (.value type) line)

/-- Apply an infix operator that evaluates both of its operands. -/
def binary (op : BinaryOp) (leftType rightType resultType : ValueType) (left right : Operand)
    (line : Line) : LowerM Operand :=
  let refused : LowerError := .binary op.sign (.value leftType) (.value rightType) line
  match commonType? leftType rightType with
  | none => throw refused
  | some type => do
    let left <- coerce left leftType type
    let right <- coerce right rightType type
    match operation? op type with
    | none => throw refused
    | some operation =>
      if operation.resultType = resultType then
        define fun target => .operate target operation left right
      else throw refused

/-- Store a value in the slot of a variable.  The operand of the stored value is the result. -/
def assign (context : Context) (target : Target) (valueType : ValueType) (value : Operand) :
    LowerM Operand := do
  let type <- slotType context target.name target.line
  if type.accepts valueType then
    let stored <- coerce value valueType type
    emit (.store type stored target.name)
    return stored
  else throw (.binary "=" (.value type) (.value valueType) target.line)

/-- The value of a logical operator whose left operand decides. -/
def shortValue (op : BinaryOp) : Bool :=
  op == .or

/-- Generate the code of an expression. -/
def expr (context : Context) : Expr -> LowerM Operand
  | .int site value => do
    let _ <- typeAt context site
    return .int value
  | .double site bits => do
    let _ <- typeAt context site
    return .double bits
  | .bool site value => do
    let _ <- typeAt context site
    return .bool value
  | .name site spelling => do
    let _ <- typeAt context site
    let type <- slotType context spelling site.line
    define fun target => .load target type spelling
  | .assign site target value => do
    let _ <- typeAt context site
    let valueType <- typeOf context (value ())
    let operand <- expr context (value ())
    assign context target valueType operand
  | .unary site op operand => do
    let _ <- typeAt context site
    let type <- typeOf context (operand ())
    let value <- expr context (operand ())
    unary op type value site.line
  | .binary site op left right => do
    let resultType <- typeAt context site
    let leftType <- typeOf context (left ())
    let rightType <- typeOf context (right ())
    if op.family = .logical then
      if leftType = .bool ∧ rightType = .bool then
        let leftValue <- expr context (left ())
        let start <- newLabel
        emit (.jump start)
        openBlock start
        let rightStart <- newLabel
        let rightEnd <- newLabel
        let joined <- newLabel
        if shortValue op then emit (.fork leftValue joined rightStart)
        else emit (.fork leftValue rightStart joined)
        openBlock rightStart
        let rightValue <- expr context (right ())
        emit (.jump rightEnd)
        openBlock rightEnd
        emit (.jump joined)
        openBlock joined
        define fun target => .phi target (.bool (shortValue op)) start rightValue rightEnd
      else
        let leftSite <- siteOf (left ())
        throw (.binary op.sign (.value leftType) (.value rightType) leftSite.line)
    else
      let leftValue <- expr context (left ())
      let rightValue <- expr context (right ())
      binary op leftType rightType resultType leftValue rightValue site.line
  | .dangling number => throw (.dangling number)

/-- Print a value of a type in a format. -/
def print (format : Format) (type : ValueType) (value : Operand) (line : Line) : LowerM Unit :=
  match format, type with
  | .plain, .int => emit (.print .printInt .int value)
  | .hex, .int => emit (.print .printHex .int value)
  | .plain, .double => emit (.print .printDouble .double value)
  | .plain, .bool => do
    let register <- newRegister
    emit (.select register value .printTrue .printFalse)
    emit (.printSelected register)
  | _, _ => throw (.noTemplate (Direction.write.template format) (.value type) line)

/-- Scan a value into the slot of a variable. -/
def scan (context : Context) (target : Target) (format : Format) : LowerM Unit := do
  let type <- slotType context target.name target.line
  match format, type with
  | .plain, .int => emit (.scan .scanInt target.name)
  | .hex, .int => emit (.scan .scanHex target.name)
  | .plain, .double => emit (.scan .scanDouble target.name)
  | _, _ => throw (.noTemplate (Direction.read.template format) (.value type) target.line)

/-- Generate the code of a statement. -/
def stmt (context : Context) : Stmt -> LowerM Unit
  | .done => pure ()
  | .seq first rest => do
    stmt context first
    stmt context rest
  | .block _ body => stmt context (body ())
  | .expr _ value => do
    let _ <- expr context value
  | .branch _ condition yes no => do
    let value <- expr context condition
    let yesLabel <- newLabel
    let noLabel <- newLabel
    let endLabel <- newLabel
    emit (.fork value yesLabel noLabel)
    openBlock yesLabel
    stmt context (yes ())
    emit (.jump endLabel)
    openBlock noLabel
    stmt context (no ())
    emit (.jump endLabel)
    openBlock endLabel
  | .loop _ condition body => do
    let startLabel <- newLabel
    emit (.jump startLabel)
    openBlock startLabel
    let value <- expr context condition
    let bodyLabel <- newLabel
    let endLabel <- newLabel
    emit (.fork value bodyLabel endLabel)
    openBlock bodyLabel
    stmt context (body ())
    emit (.jump startLabel)
    openBlock endLabel
  | .write line value format => do
    let type <- typeOf context value
    let operand <- expr context value
    print format type operand line
  | .writeText _ number =>
    match context.texts.get? number with
    | some constant => emit (.printText constant.sizeWithEnd number)
    | none => throw (.dangling ⟨context.texts.size, number⟩)
  | .read _ target format => scan context target format
  | .leave _ => do
    emit .ret
    let label <- newLabel
    openBlock label
  | .dangling number => throw (.dangling number)

/-- The state in which a routine starts: its first block is open and holds the slots of the
variables. -/
def atEntry (scope : Scope) : Lowering :=
  { items := #[.label .entry] ++ scope.entries.map fun declaration =>
      .instr (.alloca declaration.name declaration.type) }

/-- Generate the code of the body of the routine, which ends by leaving it. -/
def routine (context : Context) (body : Stmt) : LowerM Unit := do
  stmt context body
  emit .ret

end Lowering

/-- Generate the code of a program whose expressions have the given tags. -/
def Program.generate (program : Program) (tags : TagTable) : Except LowerError CodeModule := do
  let context : Lowering.Context := ⟨program.scope, tags, program.forest.texts⟩
  let (_, lowering) <- (Lowering.routine context program.tree).run (Lowering.atEntry program.scope)
  return { texts := program.forest.texts.toList, items := lowering.items.toList }

end MiniLang
