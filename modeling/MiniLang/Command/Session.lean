import MiniLang.Command.FileSystem
import MiniLang.Command.Options
import MiniLang.Compile

/-!
# Sessions

One invocation of the compiler: from the arguments and the file system to what is printed, what is
written and how it ends.  A file is written only if compiling succeeds.
-/

namespace MiniLang
namespace Command

/-- How compiling a file ends. -/
inductive Status where
  /-- The code was written to a path. -/
  | compiled (path : String)
  /-- So many problems were found. -/
  | errorsDetected (count : Nat)
  /-- The generator refused the program. -/
  | refused (error : LowerError)
  deriving DecidableEq, Repr

/-- Why a session ends before compiling or before writing. -/
inductive SessionError where
  | arguments (error : ArgumentError)
  | cannotRead (path : String) (error : FileError)
  | cannotWrite (path : String) (error : FileError)
  deriving DecidableEq, Repr

/-- What an error says. -/
def SessionError.message : SessionError -> String
  | .arguments error => error.message
  | .cannotRead path error => "cannot read " ++ path ++ ": " ++ error.message
  | .cannotWrite path error => "cannot write " ++ path ++ ": " ++ error.message

/-- The exit code of an error. -/
def SessionError.exitCode : SessionError -> Nat
  | .arguments _ => 1
  | .cannotRead _ _ => 2
  | .cannotWrite _ _ => 2

/-- The exit code of a status. -/
def Status.exitCode : Status -> Nat
  | .compiled _ => 0
  | .errorsDetected _ => 3
  | .refused _ => 3

/-- The content of the file that holds lines of code. -/
def fileText (lines : List String) : String :=
  "\n".intercalate lines ++ "\n"

/-- What is to be done with a compiled source text. -/
inductive Plan where
  /-- Write a text to a path, then print. -/
  | write (path text printed : String)
  /-- Print, and end with a status. -/
  | finish (status : Status) (printed : String)
  deriving DecidableEq, Repr

/-- What is to be done for a source text. -/
def plan (options : Options) (display : Diagnostic.Display) (source : String) : Plan :=
  match compile source options.limit with
  | .success lines => .write options.outputPath (fileText lines) (display.summary 0)
  | .failure count diagnostics =>
    .finish (.errorsDetected count) (display.diagnostics diagnostics ++ display.summary count)
  | .refusal error => .finish (.refused error) ""

/-- What comes of a session. -/
structure Result where
  outcome : Except SessionError Status
  printed : String
  files : FileSystem

/-- Compile the file that the options name. -/
def run (options : Options) (isTerminal : Bool) (files : FileSystem) : Result :=
  match files.readText options.input with
  | .error error => ⟨.error (.cannotRead options.input error), "", files⟩
  | .ok source =>
    match plan options (.ofMode options.color isTerminal) source with
    | .write path text printed =>
      match files.write path text.toUTF8.toList with
      | .ok written => ⟨.ok (.compiled path), printed, written⟩
      | .error error => ⟨.error (.cannotWrite path error), "", files⟩
    | .finish status printed => ⟨.ok status, printed, files⟩

/-- The exit code of an outcome. -/
def exitCode : Except SessionError Status -> Nat
  | .ok status => status.exitCode
  | .error error => error.exitCode

/-- The first lines of every session. -/
def banner : String := "\nCompiler for MINI language\n"

/-- What a session leaves behind, seen from outside. -/
structure Transcript where
  standardOutput : String
  standardError : String
  exitCode : Nat
  files : FileSystem

/-- What follows the printed text of a session on the standard output. -/
def closingOutput : Except SessionError Status -> String
  | .ok _ => ""
  | .error error => "\n" ++ error.message ++ "\n"

/-- What a session prints on the standard error. -/
def closingError : Except SessionError Status -> String
  | .ok (.refused error) => error.notice
  | _ => ""

/-- A session from the arguments on. -/
def session (arguments : List String) (isTerminal : Bool) (files : FileSystem) : Transcript :=
  match Options.ofArguments arguments with
  | .error error =>
    { standardOutput := banner ++ error.message ++ "\n"
      standardError := usage ++ "\n"
      exitCode := (SessionError.arguments error).exitCode
      files := files }
  | .ok options =>
    let result := run options isTerminal files
    { standardOutput := banner ++ "\n" ++ result.printed ++ closingOutput result.outcome
      standardError := closingError result.outcome
      exitCode := exitCode result.outcome
      files := result.files }

end Command
end MiniLang
