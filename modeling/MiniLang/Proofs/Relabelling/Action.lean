import MiniLang.Reading.State

/-!
# Relabelling names and lines

A relabelling gives other names and other lines to the tokens of a program, and with them to
everything that is read from the tokens: targets, declarations, nodes and what a reading keeps of
them.  It does not touch kinds of tokens, operators, literals or the numbers of nodes.
-/

namespace MiniLang

/-- A change of names and lines.  The line 0, which stands for no line, stays. -/
structure Relabelling where
  name : String -> String
  line : Line -> Line
  line_zero : line 0 = 0

namespace Relabelling

variable (relabel : Relabelling)

/-- The action on kinds of tokens: only names change. -/
def kind : Token.Kind -> Token.Kind
  | .name spelling => .name (relabel.name spelling)
  | .keyword word => .keyword word
  | .mark sign => .mark sign
  | .int value => .int value
  | .real bits => .real bits
  | .text bytes => .text bytes
  | .endOfFile => .endOfFile

/-- The action on tokens. -/
def token (token : Token) : Token :=
  ⟨relabel.kind token.kind, relabel.line token.line⟩

/-- The action on the targets of assignments and reads. -/
def target (target : Target) : Target :=
  ⟨relabel.name target.name, relabel.line target.line⟩

/-- The action on declarations. -/
def declaration (declaration : Declaration) : Declaration :=
  ⟨relabel.name declaration.name, declaration.type, relabel.line declaration.line⟩

/-- The action on what expressions are made of. -/
def exprForm : ExprForm -> ExprForm
  | .name spelling => .name (relabel.name spelling)
  | .assign target value => .assign (relabel.target target) value
  | form => form

/-- The action on expressions of a forest. -/
def exprNode (node : ExprNode) : ExprNode :=
  ⟨relabel.line node.line, relabel.exprForm node.form⟩

/-- The action on what statements are made of. -/
def stmtForm : StmtForm -> StmtForm
  | .read target format => .read (relabel.target target) format
  | form => form

/-- The action on statements of a forest. -/
def stmtNode (node : StmtNode) : StmtNode :=
  ⟨relabel.line node.line, relabel.stmtForm node.form⟩

/-- The action on forests.  String constants have neither names nor lines. -/
def forest (forest : Forest) : Forest where
  exprs := forest.exprs.map relabel.exprNode
  stmts := forest.stmts.map relabel.stmtNode
  texts := forest.texts

/-- The action on what waits on the stack of a reading. -/
def frame : Reading.Frame -> Reading.Frame
  | .group => .group
  | .unary op line => .unary op (relabel.line line)
  | .binary op line left => .binary op (relabel.line line) left
  | .assign target line => .assign (relabel.target target) (relabel.line line)
  | .condition construct line => .condition construct (relabel.line line)
  | .writeValue line => .writeValue (relabel.line line)
  | .exprStatement line => .exprStatement (relabel.line line)
  | .yesBranch line condition => .yesBranch (relabel.line line) condition
  | .noBranch line condition yes => .noBranch (relabel.line line) condition yes
  | .loopBody line condition => .loopBody (relabel.line line) condition
  | .block line body => .block (relabel.line line) body

/-- The action on reads and writes that lack their format. -/
def transfer : Reading.Transfer -> Reading.Transfer
  | .read line target => .read (relabel.line line) (relabel.target target)
  | .write line value => .write (relabel.line line) value

/-- The action on the modes of a reading. -/
def mode : Reading.Mode -> Reading.Mode
  | .openCondition construct line => .openCondition construct (relabel.line line)
  | .nameStart target => .nameStart (relabel.target target)
  | .opened line => .opened (relabel.line line)
  | .castEnd line op type => .castEnd (relabel.line line) op (relabel.token type)
  | .writeStart line => .writeStart (relabel.line line)
  | .textEnd line bytes => .textEnd (relabel.line line) bytes
  | .readTarget line => .readTarget (relabel.line line)
  | .readEnd line target => .readEnd (relabel.line line) (relabel.target target)
  | .formatWord transfer => .formatWord (relabel.transfer transfer)
  | .formatEnd transfer => .formatEnd (relabel.transfer transfer)
  | .leaveEnd line => .leaveEnd (relabel.line line)
  | mode => mode

section Kinds

@[simp] theorem kind_token (token : Token) :
    (relabel.token token).kind = relabel.kind token.kind := rfl

@[simp] theorem line_token (token : Token) :
    (relabel.token token).line = relabel.line token.line := rfl

@[simp] theorem kind_eq_mark {kind : Token.Kind} {sign : Mark} :
    relabel.kind kind = .mark sign ↔ kind = .mark sign := by
  cases kind <;> simp [Relabelling.kind]

@[simp] theorem kind_eq_keyword {kind : Token.Kind} {word : Keyword} :
    relabel.kind kind = .keyword word ↔ kind = .keyword word := by
  cases kind <;> simp [Relabelling.kind]

@[simp] theorem kind_eq_endOfFile {kind : Token.Kind} :
    relabel.kind kind = .endOfFile ↔ kind = .endOfFile := by
  cases kind <;> simp [Relabelling.kind]

/-- A relabelling that keeps the names keeps the kinds of tokens. -/
theorem kind_eq_self
    (keeps : relabel.name = id)
    (kind : Token.Kind) :
    relabel.kind kind = kind := by
  cases kind with
  | name spelling => exact congrArg Token.Kind.name (congrFun keeps spelling)
  | _ => rfl

@[simp] theorem isBlock_frame (frame : Reading.Frame) :
    (relabel.frame frame).isBlock = frame.isBlock := by
  cases frame <;> rfl

end Kinds

section Nodes

variable (forest : Forest) (line : Line)

@[simp] theorem size_exprs : (relabel.forest forest).exprs.size = forest.exprs.size :=
  Array.size_map

@[simp] theorem size_stmts : (relabel.forest forest).stmts.size = forest.stmts.size :=
  Array.size_map

/-- Adding an expression to a relabelled forest adds the relabelled expression. -/
theorem addExpr_forest (form : ExprForm) :
    (relabel.forest forest).addExpr (relabel.line line) (relabel.exprForm form) =
      ((forest.addExpr line form).1, relabel.forest (forest.addExpr line form).2) := by
  simp [Forest.addExpr, Relabelling.forest, Relabelling.exprNode]

/-- Adding a statement to a relabelled forest adds the relabelled statement. -/
theorem addStmt_forest (form : StmtForm) :
    (relabel.forest forest).addStmt (relabel.line line) (relabel.stmtForm form) =
      ((forest.addStmt line form).1, relabel.forest (forest.addStmt line form).2) := by
  simp [Forest.addStmt, Relabelling.forest, Relabelling.stmtNode]

/-- Adding a string to a relabelled forest adds the same string. -/
theorem addText_forest (bytes : List UInt8) :
    (relabel.forest forest).addText (relabel.line line) bytes =
      ((forest.addText line bytes).1, relabel.forest (forest.addText line bytes).2) :=
  relabel.addStmt_forest { forest with texts := (forest.texts.add bytes).2 } line
    (.writeText (forest.texts.add bytes).1)

end Nodes

/-- A diagnostic says the same as another one on the relabelled line.  Its message is the same as far
as names are the same. -/
structure Repeats (diagnostic diagnostic' : Diagnostic) : Prop where
  kind_eq : diagnostic'.kind = diagnostic.kind
  line_eq : diagnostic'.line = relabel.line diagnostic.line
  message_eq : relabel.name = id -> diagnostic'.message = diagnostic.message

/-- An error says the same as another one, also on whether the tokens end too early. -/
structure RepeatsError (error error' : SyntaxError) : Prop where
  diagnosed : relabel.Repeats error.diagnostic error'.diagnostic
  atEnd_eq : error'.atEnd = error.atEnd

section Errors

variable (found : Token)

/-- What an error says about a token is said about the relabelled token. -/
theorem repeatsError_unexpected (expected : String) :
    relabel.RepeatsError (.unexpected found expected)
      (.unexpected (relabel.token found) expected) where
  diagnosed :=
    { kind_eq := rfl
      line_eq := rfl
      message_eq := by
        intro keeps
        simp only [SyntaxError.diagnostic, SyntaxError.message, kind_token,
          relabel.kind_eq_self keeps] }
  atEnd_eq := by
    rw [Bool.eq_iff_iff]
    simp [SyntaxError.atEnd]

/-- A reason for which a construct is not allowed stays, at least if names stay. -/
theorem repeatsError_refused
    (line : Line)
    {reason reason' : String}
    (reason_eq : relabel.name = id -> reason' = reason) :
    relabel.RepeatsError (.refused line reason) (.refused (relabel.line line) reason') where
  diagnosed := ⟨rfl, rfl, reason_eq⟩
  atEnd_eq := rfl

theorem repeatsError_trailing :
    relabel.RepeatsError (.trailing found) (.trailing (relabel.token found)) := by
  apply relabel.repeatsError_refused
  intro keeps
  rw [kind_token, relabel.kind_eq_self keeps]

end Errors

end Relabelling
end MiniLang
