import MiniLang.Command.Session
import MiniLang.Proofs.Code.Constants
import MiniLang.Proofs.Command.FileSystem
import MiniLang.Proofs.Diagnostic.Limit

/-!
# How a session ends

A session ends in one of six ways, which are told apart by the arguments, by what stands at the
input path, by what compiling makes of it and by whether the output path can hold a file.  Only one
of them changes the file system, and that one changes a single file.
-/

namespace MiniLang
namespace Command

open Diagnostic

/-- Take in the arguments and then compile the file that they name. -/
def invoke (arguments : List String) (isTerminal : Bool) (files : FileSystem) : Result :=
  match Options.ofArguments arguments with
  | .error error => ⟨.error (.arguments error), "", files⟩
  | .ok options => run options isTerminal files

/-- The text of lines of which each is followed by a line feed. -/
def linesText (lines : List String) : String :=
  String.join (lines.map fun line => line ++ "\n")

/-- The ways in which a session ends: its outcome, what it prints, its exit code and the file system
that it leaves behind. -/
inductive Concludes (arguments : List String) (isTerminal : Bool) (files : FileSystem) :
    Except SessionError Status -> String -> Nat -> FileSystem -> Prop where
  | badArguments {error : ArgumentError}
      (invalid : Options.ofArguments arguments = .error error) :
      Concludes arguments isTerminal files (.error (.arguments error)) "" 1 files
  | unreadable {options : Options} {error : FileError}
      (valid : Options.ofArguments arguments = .ok options)
      (fails : files.readText options.input = .error error) :
      Concludes arguments isTerminal files (.error (.cannotRead options.input error)) "" 2 files
  | unwritable {options : Options} {source path : String} {lines : List String} {error : FileError}
      (valid : Options.ofArguments arguments = .ok options)
      (reads : files.readText options.input = .ok source)
      (compiles : ∀ limit, compile source limit = .success lines)
      (path_eq : path = options.output?.getD (options.input ++ ".ll"))
      (fails : files.write path (linesText lines).toUTF8.toList = .error error) :
      Concludes arguments isTerminal files (.error (.cannotWrite path error)) "" 2 files
  | errorsDetected {options : Options} {source : String} {analysis : Analysis} {count : Nat}
      {shown : List Diagnostic} {display : Display}
      (valid : Options.ofArguments arguments = .ok options)
      (reads : files.readText options.input = .ok source)
      (analysed : analyse source = .ok analysis)
      (count_eq : count = analysis.diagnostics.length)
      (positive : 1 <= count)
      (sorted : SortedByLine (Log.front options.limit analysis.diagnostics) shown)
      (display_eq : display = .ofMode options.color isTerminal) :
      Concludes arguments isTerminal files (.ok (.errorsDetected count))
        (String.join (shown.map display.diagnostic) ++
          ("\n " ++ display.paint Display.failureColor (count.repr ++ " errors detected") ++ "\n"))
        3 files
  | refused {options : Options} {source : String} {error : LowerError}
      (valid : Options.ofArguments arguments = .ok options)
      (reads : files.readText options.input = .ok source)
      (refuses : compile source options.limit = .refusal error) :
      Concludes arguments isTerminal files (.ok (.refused error)) "" 3 files
  | compiled {options : Options} {source path : String} {lines : List String}
      {display : Display} {after : FileSystem}
      (valid : Options.ofArguments arguments = .ok options)
      (reads : files.readText options.input = .ok source)
      (compiles : ∀ limit, compile source limit = .success lines)
      (path_eq : path = options.output?.getD (options.input ++ ".ll"))
      (written : files.OnlyWritten path (linesText lines) after)
      (display_eq : display = .ofMode options.color isTerminal) :
      Concludes arguments isTerminal files (.ok (.compiled path))
        ("\n " ++ display.paint Display.successColor "compilation successful" ++ "\n") 0 after

/-- Line feeds between lines and one after the last are line feeds after all of them. -/
theorem fileText_eq_linesText
    {lines : List String}
    (some_line : lines ≠ []) :
    fileText lines = linesText lines := by
  unfold fileText linesText
  induction lines with
  | nil => exact absurd rfl some_line
  | cons line rest inductionHypothesis =>
      cases rest with
      | nil => simp [String.intercalate_singleton]
      | cons next later =>
          rw [String.intercalate_cons_cons, String.append_assoc, inductionHypothesis (by simp)]
          exact String.join_cons.symm

/-- The verdict after some errors names their number. -/
theorem summary_of_pos
    (display : Display)
    {count : Nat}
    (positive : 1 <= count) :
    display.summary count =
      "\n " ++ display.paint Display.failureColor (count.repr ++ " errors detected") ++ "\n" := by
  rw [Display.summary, if_neg (Nat.ne_of_gt positive)]

/-- Generated code has at least one line. -/
theorem lines_ne_nil (code : CodeModule) : code.lines ≠ [] := by
  rw [CodeModule.lines_eq]
  simp

/-- What compiling comes to is told by what the analysis of the source text reports. -/
theorem exists_compile_of_analyse (source : String) :
    ∃ analysis, analyse source = .ok analysis ∧
      ((analysis.diagnostics = [] ∧
          ∃ code : CodeModule, ∀ limit, compile source limit = .success code.lines) ∨
        (analysis.diagnostics ≠ [] ∧
          ∀ limit, compile source limit =
            .failure analysis.diagnostics.length
              (Log.byLine (Log.front limit analysis.diagnostics)))) := by
  obtain ⟨tags, breaches, checked, ends⟩ := exists_compile source
  refine ⟨_, analyse_of_check checked, ?_⟩
  rcases ends with ⟨clean, code, -, succeeds⟩ | failure
  · exact .inl ⟨clean, code, succeeds⟩
  · exact .inr failure

/-- Compiling the file that valid options name ends in one of the five ways that are left. -/
theorem concludes_run
    {arguments : List String}
    {options : Options}
    (valid : Options.ofArguments arguments = .ok options)
    (isTerminal : Bool)
    (files : FileSystem) :
    Concludes arguments isTerminal files (run options isTerminal files).outcome
      (run options isTerminal files).printed (exitCode (run options isTerminal files).outcome)
      (run options isTerminal files).files := by
  unfold run
  cases reads : files.readText options.input with
  | error error => exact .unreadable valid reads
  | ok source =>
      obtain ⟨analysis, analysed, verdict⟩ := exists_compile_of_analyse source
      unfold plan
      dsimp only
      cases compiled : compile source options.limit with
      | success lines =>
          obtain ⟨-, code, succeeds⟩ | ⟨-, fails⟩ := verdict
          · obtain rfl : code.lines = lines := by simpa [succeeds] using compiled
            dsimp only
            rw [fileText_eq_linesText (lines_ne_nil code)]
            cases writes : files.write options.outputPath
                (linesText code.lines).toUTF8.toList with
            | error error => exact .unwritable valid reads succeeds rfl writes
            | ok after =>
                exact .compiled valid reads succeeds rfl
                  (FileSystem.onlyWritten_of_write writes) rfl
          · simp [fails] at compiled
      | failure count shown =>
          obtain ⟨-, code, succeeds⟩ | ⟨reported, fails⟩ := verdict
          · simp [succeeds] at compiled
          · rw [fails] at compiled
            obtain ⟨rfl, rfl⟩ := Outcome.failure.inj compiled
            have positive := List.length_pos_iff.2 reported
            dsimp only
            rw [summary_of_pos _ positive]
            exact .errorsDetected valid reads analysed rfl positive (SortedByLine.byLine _) rfl
      | refusal error => exact .refused valid reads compiled

/-- The file system changes only if a session ends with compiled code.  Then only the file at the
output path changes: it holds the lines of the code of the input's text, whatever the limit is, the
verdict of success is printed and the exit code is 0.  A session that ends in any other way leaves
the file system as it was, and its exit code is 1 for bad arguments, 2 for a file that cannot be read
or written and 3 after compiling; of detected errors there is at least one, and those that the limit
lets through are printed by line before the verdict that names the number of all of them. -/
theorem files_change_only_on_success
    (arguments : List String)
    (isTerminal : Bool)
    (files : FileSystem) :
    Concludes arguments isTerminal files (invoke arguments isTerminal files).outcome
      (invoke arguments isTerminal files).printed (session arguments isTerminal files).exitCode
      (session arguments isTerminal files).files := by
  unfold invoke session
  cases valid : Options.ofArguments arguments with
  | error error => exact .badArguments valid
  | ok options => exact concludes_run valid isTerminal files

end Command
end MiniLang
