import MiniLang.Command.Session

/-!
# The command

The compiler as a program: the decisions are those of `MiniLang.Command`, carried out on the files
and terminals of the machine.
-/

namespace MiniLang
namespace Command

/-- The number of a failure.  Some file operations give it with its sign turned. -/
def failureNumber (code : UInt32) : UInt32 :=
  if code < 4096 then code else 0 - code

/-- The reason for a failure of the operating system. -/
def fileErrorOf : IO.Error -> FileError
  | .noFileOrDirectory _ _ _ => .notFound
  | .inappropriateType _ code _ =>
    if failureNumber code = 20 then .notADirectory else .isADirectory
  | .invalidArgument file code details =>
    if failureNumber code = 36 then .nameTooLong
    else .other (IO.Error.invalidArgument file code details).toString
  | error => .other error.toString

/-- Carry out a file operation, turning an exception into a value. -/
def attempt {α : Type} (action : IO α) : IO (Except FileError α) := do
  try
    return .ok (<- action)
  catch error =>
    return .error (fileErrorOf error)

/-- The source text at a path. -/
def sourceAt (path : String) : IO (Except FileError String) := do
  match <- attempt (IO.FS.readBinFile path) with
  | .error error => return .error error
  | .ok content =>
    match String.fromUTF8? content with
    | some text => return .ok text
    | none => return .error .notText

/-- Compile the file that the options name. -/
def carryOut (options : Options) (isTerminal : Bool) : IO (Except SessionError Status) := do
  match <- sourceAt options.input with
  | .error error => return .error (.cannotRead options.input error)
  | .ok source =>
    match plan options (.ofMode options.color isTerminal) source with
    | .finish status printed =>
      IO.print printed
      return .ok status
    | .write path text printed =>
      match <- attempt (IO.FS.writeFile path text) with
      | .error error => return .error (.cannotWrite path error)
      | .ok _ =>
        IO.print printed
        return .ok (.compiled path)

end Command
end MiniLang

open MiniLang.Command in
/-- The entry point; the result is the exit code. -/
def main (arguments : List String) : IO UInt32 := do
  IO.print banner
  match Options.ofArguments arguments with
  | .error error =>
    IO.println error.message
    IO.eprintln usage
    return (SessionError.arguments error).exitCode.toUInt32
  | .ok options =>
    IO.println ""
    let outcome <- carryOut options (<- (<- IO.getStdout).isTty)
    IO.print (closingOutput outcome)
    IO.eprint (closingError outcome)
    return (exitCode outcome).toUInt32
