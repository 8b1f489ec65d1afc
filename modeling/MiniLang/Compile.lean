import MiniLang.Code.Lower
import MiniLang.Diagnostic.Log
import MiniLang.Reading.Program
import MiniLang.Token.Scan
import MiniLang.Typing.Check

/-!
# Compiling

A source text is read and checked as a whole, so that all of its problems come to light at once.
Code is generated only if there are none.
-/

namespace MiniLang

/-- All that is found out about a source text before code is generated. -/
structure Analysis where
  program : Program
  tags : TagTable
  /-- The problems, in the order in which they are found. -/
  diagnostics : List Diagnostic

/-- Read and check a source text. -/
def analyse (source : String) : Except Dangling Analysis := do
  let scanned := Token.scan source
  let (program, complaints) := Program.ofTokens scanned.tokens
  let (tags, breaches) <- program.check
  return { program, tags, diagnostics := scanned.diagnostics ++ complaints ++ breaches }

/-- How compiling a source text ends. -/
inductive Outcome where
  /-- The lines of the generated code. -/
  | success (lines : List String)
  /-- The number of problems, and those that are kept, by line. -/
  | failure (count : Nat) (diagnostics : List Diagnostic)
  /-- The generator refuses a program that checking accepts. -/
  | refusal (error : LowerError)
  deriving DecidableEq, Repr

/-- Whether compiling ends with code. -/
def Outcome.isSuccess : Outcome -> Bool
  | .success _ => true
  | _ => false

theorem Outcome.exists_of_isSuccess {outcome : Outcome} (succeeds : outcome.isSuccess = true) :
    ∃ lines, outcome = .success lines := by
  cases outcome with
  | success lines => exact ⟨lines, rfl⟩
  | _ => cases succeeds

/-- Compile a source text, keeping no more problems than a limit allows. -/
def compile (source : String) (limit : Nat) : Outcome :=
  match analyse source with
  | .error number => .refusal (.dangling number)
  | .ok analysis =>
    let log := (Diagnostic.Log.withLimit limit).reportAll analysis.diagnostics
    if log.count = 0 then
      match analysis.program.generate analysis.tags with
      | .ok code => .success code.lines
      | .error error => .refusal error
    else .failure log.count log.flush.1

end MiniLang
