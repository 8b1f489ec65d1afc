import MiniLang.Reading.Statement

/-!
# Reading programs

A program is the word that opens it and a pair of braces, which hold declarations followed by
statements.  A broken declaration or statement is reported once and left out; reading always goes on
to the end of the tokens.
-/

namespace MiniLang
namespace Reading

/-- A token where a declaration may start. -/
def declaration (reading : Reading) (token : Token) : Reading :=
  match token.kind with
  | .keyword word =>
    match ValueType.ofKeyword? word with
    | some type => { reading with mode := .declaredName type }
    | none => reading.sequence token
  | _ => reading.sequence token

/-- A token where the program has to open.  The brace alone will do to go on. -/
def programWord (reading : Reading) (token : Token) : Reading :=
  match token.kind with
  | .keyword .program => { reading with mode := .openingBrace }
  | .mark .leftBrace =>
    { reading.report (.missingWord token .program) with mode := .declarations }
  | _ => (reading.report (.missingWord token .program)).declaration token

/-- A token after the word that opens the program. -/
def openingBrace (reading : Reading) (token : Token) : Reading :=
  if token.kind = .mark .leftBrace then { reading with mode := .declarations }
  else (reading.report (.missing token .leftBrace)).declaration token

/-- A token where the name of a declared variable has to stand. -/
def declaredName (reading : Reading) (type : ValueType) (token : Token) : Reading :=
  match token.kind with
  | .name spelling =>
    { reading with
      declarations := reading.declarations.push ⟨spelling, type, token.line⟩
      mode := .afterName type }
  | _ => reading.failDeclaration token (.missingName token)

/-- A token after the name of a declared variable. -/
def afterName (reading : Reading) (type : ValueType) (token : Token) : Reading :=
  match token.kind with
  | .mark .comma => { reading with mode := .declaredName type }
  | .mark .semicolon => { reading with mode := .declarations }
  | _ => reading.failDeclaration token (.missing token .semicolon)

/-- A token after the closing brace of the program. -/
def afterProgram (reading : Reading) (token : Token) : Reading :=
  match token.kind with
  | .endOfFile => { reading with mode := .ended }
  | _ => { reading.report (.trailing token) with mode := .ended }

/-- Read one token. -/
def feed (reading : Reading) (token : Token) : Reading :=
  match reading.mode with
  | .programWord => reading.programWord token
  | .openingBrace => reading.openingBrace token
  | .declarations => reading.declaration token
  | .declaredName type => reading.declaredName type token
  | .afterName type => reading.afterName type token
  | .skippingDeclaration => reading.resumeDeclaration token
  | .sequence => reading.sequence token
  | .statement => reading.statement token
  | .completed last => settle token reading reading.stack last
  | .skipping => reading.resumeStatement token
  | .openCondition construct line => reading.openCondition construct line token
  | .expression => reading.expression token
  | .operand => reading.operand token
  | .nameStart target => reading.afterNameStart target token
  | .opened line => reading.afterParen line token
  | .castEnd line op type => reading.afterCastType line op type token
  | .value last => reading.afterOperand last token
  | .writeStart line => reading.writeStart line token
  | .textEnd line bytes => reading.textEnd line bytes token
  | .readTarget line => reading.readTarget line token
  | .readEnd line target => reading.readEnd line target token
  | .formatWord transfer => reading.formatWord transfer token
  | .formatEnd transfer => reading.formatEnd transfer token
  | .leaveEnd line => reading.leaveEnd line token
  | .closed => reading.afterProgram token
  | .ended => reading

/-- Read tokens one after the other. -/
def feedAll (reading : Reading) (tokens : List Token) : Reading :=
  tokens.foldl feed reading

/-- The tokens that are read for a list of tokens.  No tokens are read like the end of a file.  In a
list that lacks the end of the file the last token stands for all that follow, so it is repeated
often enough to close every block that the list opens. -/
def input (tokens : List Token) : List Token :=
  match tokens.getLast? with
  | none => [⟨.endOfFile, 0⟩]
  | some last =>
    if tokens.any (fun token => token.kind == .endOfFile) then tokens
    else tokens ++ List.replicate (tokens.length + 2) last

/-- The state in which the reading of a list of tokens ends. -/
def ofTokens (tokens : List Token) : Reading :=
  start.feedAll (input tokens)

end Reading

/-- Read a program.  The result holds all that was read without an error; the diagnostics are the
breaches of the grammar, followed by the variables that are declared again. -/
def Program.ofTokens (tokens : List Token) : Program × List Diagnostic :=
  let reading := Reading.ofTokens tokens
  let assembled :=
    Program.assemble reading.declarations.toList reading.body.reverse reading.forest
  (assembled.1, reading.errors.toList.map SyntaxError.diagnostic ++ assembled.2)

end MiniLang
