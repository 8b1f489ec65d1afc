import MiniLang.Diagnostic.Display

/-!
# Command-line options

Arguments are first cut into groups: an option that takes an argument has it in its group, every
other argument is a group of its own.  The groups are then taken in from left to right; of several
groups for one setting the last one counts.
-/

namespace MiniLang
namespace Command

/-- What an invocation asks for. -/
structure Options where
  /-- The path of the source text. -/
  input : String
  /-- The path for the generated code, if one is given. -/
  output? : Option String
  color : Diagnostic.ColorMode
  /-- How many problems are shown; 0 shows all of them. -/
  limit : Nat
  deriving DecidableEq, Repr

/-- What can be wrong with the arguments. -/
inductive ArgumentError where
  | noInput
  | noOutputPath
  | unknownColor (mode : String)
  | badLimit (text : String)
  | unknownOption (argument : String)
  | secondInput (argument : String)
  deriving DecidableEq, Repr

/-- What an error says. -/
def ArgumentError.message : ArgumentError -> String
  | .noInput => "Please provide filename for compilation!"
  | .noOutputPath => "-o requires a path"
  | .unknownColor mode => "unknown color mode '" ++ mode ++ "'"
  | .badLimit text => "invalid error limit '" ++ text ++ "'"
  | .unknownOption argument => "unknown option '" ++ argument ++ "'"
  | .secondInput argument => "unexpected argument '" ++ argument ++ "'"

/-- A group of arguments. -/
inductive Group where
  | output (path : String)
  /-- The output option without a path. -/
  | outputAlone
  | color (mode : String)
  | limit (text : String)
  /-- Another argument that looks like an option. -/
  | option (argument : String)
  | input (path : String)
  deriving DecidableEq, Repr

/-- The option that names the output. -/
def outputOption : String := "-o"

/-- The beginning of the option that sets the colours. -/
def colorOption : List Char := "--color=".toList

/-- The beginning of the option that sets the limit. -/
def limitOption : List Char := "--error-limit=".toList

/-- What is left of characters after a given beginning. -/
def afterStart? : List Char -> List Char -> Option (List Char)
  | [], rest => some rest
  | _ :: _, [] => none
  | expected :: start, character :: rest =>
    if expected = character then afterStart? start rest else none

/-- The group that a single argument makes. -/
def Group.ofArgument (argument : String) : Group :=
  let characters := argument.toList
  match afterStart? colorOption characters with
  | some mode => .color (String.ofList mode)
  | none =>
    match afterStart? limitOption characters with
    | some text => .limit (String.ofList text)
    | none => if characters.head? = some '-' then .option argument else .input argument

/-- Cut arguments into groups. -/
def Group.cut : List String -> List Group
  | [] => []
  | [argument] => if argument = outputOption then [.outputAlone] else [.ofArgument argument]
  | argument :: next :: rest =>
    if argument = outputOption then .output next :: cut rest
    else .ofArgument argument :: cut (next :: rest)

/-- The colour mode with a given name. -/
def colorMode? : String -> Option Diagnostic.ColorMode
  | "auto" => some .auto
  | "always" => some .always
  | "never" => some .never
  | _ => none

/-- The greatest limit. -/
def greatestLimit : Nat := 18446744073709551615

/-- The value of decimal digits, of which there has to be one. -/
def digits? (characters : List Char) : Option Nat :=
  if characters.isEmpty then none
  else characters.foldlM
    (fun value digit =>
      if '0' <= digit ∧ digit <= '9' then some (10 * value + (digit.toNat - '0'.toNat)) else none) 0

/-- The limit that a text gives: digits, perhaps after a plus sign. -/
def limit? (text : String) : Option Nat :=
  let digits := match text.toList with
    | '+' :: rest => rest
    | characters => characters
  (digits? digits).filter (fun value => value <= greatestLimit)

/-- The settings after some of the groups. -/
structure Settings where
  input? : Option String := none
  output? : Option String := none
  color : Diagnostic.ColorMode := .auto
  limit : Nat := 0
  deriving DecidableEq, Repr

/-- Take in one group. -/
def Settings.add (settings : Settings) : Group -> Except ArgumentError Settings
  | .output path => .ok { settings with output? := some path }
  | .outputAlone => .error .noOutputPath
  | .color mode =>
    match colorMode? mode with
    | some color => .ok { settings with color := color }
    | none => .error (.unknownColor mode)
  | .limit text =>
    match limit? text with
    | some limit => .ok { settings with limit := limit }
    | none => .error (.badLimit text)
  | .option argument => .error (.unknownOption argument)
  | .input path =>
    match settings.input? with
    | none => .ok { settings with input? := some path }
    | some _ => .error (.secondInput path)

/-- The options that arguments give. -/
def Options.ofArguments (arguments : List String) : Except ArgumentError Options := do
  let settings <- (Group.cut arguments).foldlM Settings.add {}
  match settings.input? with
  | none => throw .noInput
  | some input =>
    return { input, output? := settings.output?, color := settings.color, limit := settings.limit }

/-- The text that explains the command line. -/
def usage : String :=
  "Usage: minic <file.mini> [options]\n\nOptions:\n" ++
  "  -o <path>             Output file (default: <file.mini>.ll)\n" ++
  "  --color=<mode>        auto, always, never (default: auto)\n" ++
  "  --error-limit=<n>     Print at most n diagnostics (default: all)"

/-- The path for the generated code if none is given. -/
def defaultOutput (input : String) : String :=
  input ++ ".ll"

/-- The path for the generated code. -/
def Options.outputPath (options : Options) : String :=
  options.output?.getD (defaultOutput options.input)

end Command
end MiniLang
