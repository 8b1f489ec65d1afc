import MiniLang.Program
import MiniLang.Typing.Rules
import MiniLang.Typing.TypeError

/-!
# Checking programs

One pass over a program tags every expression that it reaches and collects the breaches of the
typing rules.  Parts come before the whole and left before right.
-/

namespace MiniLang

/-- The tags given and the breaches found so far. -/
structure Checking where
  tags : TagTable
  /-- Each breach with the line it is reported on, in the order of discovery. -/
  breaches : Array (Line × TypeError) := #[]
  deriving DecidableEq, Repr

/-- A checking step; it fails only on a number that leads nowhere. -/
abbrev CheckM := StateT Checking (Except Dangling)

namespace Checking

/-- Note a breach. -/
def breach (line : Line) (error : TypeError) : CheckM Unit :=
  modify fun checking => { checking with breaches := checking.breaches.push (line, error) }

/-- Note a breach if there is one. -/
def breachIf (condition : Bool) (line : Line) (error : TypeError) : CheckM Unit :=
  if condition then breach line error else pure ()

/-- Tag an expression. -/
def tagAs (site : Site) (tag : Tag) : CheckM Tag := do
  modify fun checking => { checking with tags := checking.tags.set site.id tag }
  return tag

/-- The tag of an operation, or its stand-in and a breach if it is not allowed. -/
def allowed (result? : Option Tag) (standIn : Tag) (line : Line) (error : TypeError) :
    CheckM Tag :=
  match result? with
  | some tag => pure tag
  | none => do
    breach line error
    return standIn

/-- The tag of a variable, which has to be declared. -/
def declared (scope : Scope) (line : Line) (name : String) : CheckM Tag := do
  let tag := scope.tagOf name
  breachIf (tag == .undeclared) line (.undeclared name)
  return tag

/-- Check an expression and all of its parts. -/
def expr (scope : Scope) : Expr -> CheckM Tag
  | .int site _ => tagAs site (.value .int)
  | .double site _ => tagAs site (.value .double)
  | .bool site _ => tagAs site (.value .bool)
  | .name site spelling => do
    let tag <- declared scope site.line spelling
    tagAs site tag
  | .unary site op operand => do
    let tag <- expr scope (operand ())
    let result <- allowed (Tag.unary? op tag) (Tag.unaryStandIn op) site.line (.unary op.sign tag)
    tagAs site result
  | .binary site op left right => do
    let leftTag <- expr scope (left ())
    let rightTag <- expr scope (right ())
    let result <- allowed (Tag.binary? op leftTag rightTag) (Tag.binaryStandIn op) site.line
      (.binary op.sign leftTag rightTag)
    tagAs site result
  | .assign site target value => do
    let valueTag <- expr scope (value ())
    let targetTag <- declared scope target.line target.name
    breachIf (targetTag != .undeclared && !targetTag.accepts valueTag) site.line
      (.assignment target.name targetTag valueTag)
    tagAs site targetTag
  | .dangling number => throw number

/-- Check a condition. -/
def condition (scope : Scope) (construct : Construct) (line : Line) (test : Expr) :
    CheckM Unit := do
  let tag <- expr scope test
  breachIf (tag != .value .bool) line (.condition construct.keyword.spelling tag)

/-- The breach of writing an expression in a format. -/
def writeError (format : Format) (tag : Tag) : TypeError :=
  match format with
  | .plain => .write tag
  | .hex => .hexWrite tag

/-- The breach of reading a variable in a format. -/
def readError (format : Format) (name : String) (tag : Tag) : TypeError :=
  match format with
  | .plain => .read name tag
  | .hex => .hexRead name tag

/-- Check a statement and all of its parts. -/
def stmt (scope : Scope) : Stmt -> CheckM Unit
  | .done => pure ()
  | .seq first rest => do
    stmt scope first
    stmt scope rest
  | .block _ body => stmt scope (body ())
  | .expr _ value => do
    let _ <- expr scope value
  | .branch line test yes no => do
    condition scope .branch line test
    stmt scope (yes ())
    stmt scope (no ())
  | .loop line test body => do
    condition scope .loop line test
    stmt scope (body ())
  | .write line value format => do
    let tag <- expr scope value
    breachIf (!tag.type?.any format.canWrite) line (writeError format tag)
  | .writeText _ _ => pure ()
  | .read _ target format => do
    let tag <- declared scope target.line target.name
    breachIf (tag != .undeclared && !tag.type?.any format.canRead) target.line
      (readError format target.name tag)
  | .leave _ => pure ()
  | .dangling number => throw number

/-- Where checking a program starts. -/
def start (program : Program) : Checking :=
  { tags := TagTable.blank program.forest }

end Checking

/-- Check a program: the tags of its expressions and the breaches of the typing rules. -/
def Program.check (program : Program) : Except Dangling (TagTable × List Diagnostic) := do
  let (_, checking) <- (Checking.stmt program.scope program.tree).run (Checking.start program)
  return (checking.tags,
    checking.breaches.toList.map fun breach => breach.2.diagnostic breach.1)

end MiniLang
