import MiniLang.Proofs.Command.Session
import MiniLang.Proofs.Diagnostic.Wording

/-!
# Outputs are made of the lines they are meant to have

Code is written and diagnostics are printed with a line feed after each of them.  No line of code
and no diagnostic holds a line feed of its own, so cutting an output at its line feeds gives them
back.
-/

namespace MiniLang
namespace Command

open Diagnostic

/-- The pieces of a text between its line feeds. -/
def splitAtFeeds (text : String) : List String :=
  (text.toList.splitOn '\n').map String.ofList

section Splitting

/-- The first piece of a text ends at the first line feed. -/
theorem splitAtFeeds_append
    {line : String}
    (oneLine : OneLine line)
    (rest : String) :
    splitAtFeeds (line ++ "\n" ++ rest) = line :: splitAtFeeds rest := by
  have others : ∀ character ∈ line.toList, (character == '\n') = false := by
    intro character present
    rw [beq_eq_false_iff_ne]
    rintro rfl
    exact oneLine present
  have text_eq : (line ++ "\n" ++ rest).toList = line.toList ++ '\n' :: rest.toList := by
    simp
  rw [splitAtFeeds, text_eq, List.splitOn,
    List.splitOnP_append_cons_of_forall_mem others '\n' (by decide), List.map_cons,
    String.ofList_toList]
  rfl

/-- Lines that are ended by line feeds are given back by cutting there. -/
theorem splitAtFeeds_linesText
    {lines : List String}
    (oneLine : ∀ line ∈ lines, OneLine line)
    (rest : String) :
    splitAtFeeds (linesText lines ++ rest) = lines ++ splitAtFeeds rest := by
  induction lines with
  | nil => rw [linesText, List.map_nil, String.join_nil, String.empty_append, List.nil_append]
  | cons line others inductionHypothesis =>
      obtain ⟨first, later⟩ := List.forall_mem_cons.1 oneLine
      have text_eq : linesText (line :: others) = line ++ "\n" ++ linesText others := by
        rw [linesText, List.map_cons, String.join_cons, linesText]
      rw [text_eq, String.append_assoc, splitAtFeeds_append first, inductionHypothesis later,
        List.cons_append]

end Splitting

section Printing

variable {display : Display}

/-- Whatever the display, a diagnostic with its message on one line is shown on one line. -/
theorem exists_line_of_diagnostic
    (display : Display)
    {diagnostic : Diagnostic}
    (oneLine : OneLine diagnostic.message) :
    ∃ line, OneLine line ∧ display.diagnostic diagnostic = line ++ "\n" := by
  refine ⟨display.paint Display.failureColor diagnostic.kind.title ++ diagnostic.details, ?_, rfl⟩
  refine OneLine.append ?_ (oneLine_details oneLine)
  have title := (Kind.printable_title diagnostic.kind).oneLine
  unfold Display.paint
  split
  · exact (OneLine.append (by decide : '\n' ∉ Display.failureColor.toList) title).append
      (by decide : '\n' ∉ Display.endColor.toList)
  · exact title

/-- Without colours diagnostics are shown as their texts. -/
theorem diagnostics_eq_linesText
    (plain : display.colored = false)
    (shown : List Diagnostic) :
    display.diagnostics shown = linesText (shown.map Diagnostic.text) := by
  rw [Display.diagnostics, linesText, List.map_map]
  congr 1
  apply List.map_congr_left
  intro diagnostic _
  have unpainted (text : String) : display.paint Display.failureColor text = text := by
    rw [Display.paint, plain]
    rfl
  rw [Display.diagnostic, unpainted]
  rfl

/-- Without colours the lines of the printed text are the diagnostics, an empty line and the
verdict. -/
theorem splitAtFeeds_printed
    (plain : display.colored = false)
    {shown : List Diagnostic}
    (oneLine : ∀ diagnostic ∈ shown, OneLine diagnostic.text)
    {count : Nat}
    (positive : 1 <= count) :
    splitAtFeeds (display.diagnostics shown ++ display.summary count) =
      shown.map Diagnostic.text ++ ["", " " ++ count.repr ++ " errors detected", ""] := by
  have verdict : OneLine (" " ++ count.repr ++ " errors detected") :=
    ((Printable.append (by decide) (printable_repr count)).append (by decide)).oneLine
  have summary_eq : display.summary count =
      "" ++ "\n" ++ (" " ++ count.repr ++ " errors detected" ++ "\n" ++ "") := by
    rw [summary_of_pos display positive, Display.paint, plain, ← String.toList_inj]
    simp
  have empty : OneLine "" := by simp [OneLine]
  rw [diagnostics_eq_linesText plain, splitAtFeeds_linesText, summary_eq,
    splitAtFeeds_append empty, splitAtFeeds_append verdict]
  · rfl
  · intro line listed
    obtain ⟨diagnostic, present, rfl⟩ := List.mem_map.1 listed
    exact oneLine diagnostic present

end Printing

section Compiling

/-- What is shown under a limit has been reported. -/
theorem mem_of_mem_shown
    {limit : Nat}
    {reported : List Diagnostic}
    {diagnostic : Diagnostic}
    (shown : diagnostic ∈ Log.byLine (Log.front limit reported)) :
    diagnostic ∈ reported := by
  have kept : diagnostic ∈ Log.front limit reported := List.mem_mergeSort.1 shown
  unfold Log.front at kept
  split at kept
  · exact kept
  · exact List.mem_of_mem_take kept

/-- A source text has code with printable lines, or problems that are told on one line each. -/
theorem printable_or_oneLine (source : String) :
    (∃ lines, lines ≠ [] ∧ (∀ limit, compile source limit = .success lines) ∧
      ∀ line ∈ lines, Printable line) ∨
    ∃ reported, reported ≠ [] ∧
      (∀ limit, compile source limit =
        .failure reported.length (Log.byLine (Log.front limit reported))) ∧
      ∀ diagnostic ∈ reported, OneLine diagnostic.message := by
  obtain ⟨tags, breaches, checked, ends⟩ := exists_compile source
  rcases ends with ⟨-, code, generated, succeeds⟩ | ⟨some_reported, fails⟩
  · exact .inl ⟨code.lines, lines_ne_nil code, succeeds, printable_lines_of_generate generated⟩
  · refine .inr ⟨_, some_reported, fails, fun diagnostic reported => ?_⟩
    exact oneLine_of_analyse (analyse_of_check checked) reported

variable {source : String} {options : Options} {files : FileSystem}

/-- The code of a source text is written to the output path, unless nothing can be written there. -/
theorem run_of_success
    (isTerminal : Bool)
    (reads : files.readText options.input = .ok source)
    {lines : List String}
    (compiles : compile source options.limit = .success lines) :
    ((run options isTerminal files).outcome = .ok (.compiled options.outputPath) ∧
      (run options isTerminal files).files.readText options.outputPath = .ok (fileText lines)) ∨
    ∃ error, files.write options.outputPath (fileText lines).toUTF8.toList = .error error ∧
      (run options isTerminal files).outcome = .error (.cannotWrite options.outputPath error) := by
  unfold run plan
  simp only [reads, compiles]
  cases writes : files.write options.outputPath (fileText lines).toUTF8.toList with
  | error error => exact .inr ⟨error, rfl, rfl⟩
  | ok after => exact .inl ⟨rfl, (FileSystem.onlyWritten_of_write writes).readText_eq⟩

/-- The problems of a source text are printed with the verdict behind them. -/
theorem run_of_failure
    (isTerminal : Bool)
    (reads : files.readText options.input = .ok source)
    {count : Nat}
    {shown : List Diagnostic}
    (fails : compile source options.limit = .failure count shown) :
    (run options isTerminal files).outcome = .ok (.errorsDetected count) ∧
      (run options isTerminal files).printed =
        (Display.ofMode options.color isTerminal).diagnostics shown ++
          (Display.ofMode options.color isTerminal).summary count := by
  unfold run plan
  simp only [reads, fails, and_self]

end Compiling

/-- Outputs are made of the lines they are meant to have.  If a source text compiles, the lines of
its code are printable, so cutting the content of the written file at its line feeds gives exactly
these lines, with nothing behind the last line feed; and the file is written unless the output path
cannot hold one.  If it does not compile, each diagnostic is rendered on one line, with colours or
without; without them, cutting the printed text at its line feeds gives the texts of the kept
diagnostics, an empty line and the verdict. -/
theorem outputs_line_faithful
    (source : String)
    (limit : Nat) :
    (∃ lines, compile source limit = .success lines ∧
      (∀ line ∈ lines, Printable line ∧ OneLine line) ∧
      splitAtFeeds (fileText lines) = lines ++ [""] ∧
      ∀ (options : Options) (isTerminal : Bool) (files : FileSystem),
        files.readText options.input = .ok source ->
        ((run options isTerminal files).outcome = .ok (.compiled options.outputPath) ∧
          (run options isTerminal files).files.readText options.outputPath =
            .ok (fileText lines)) ∨
        ∃ error, files.write options.outputPath (fileText lines).toUTF8.toList = .error error ∧
          (run options isTerminal files).outcome =
            .error (.cannotWrite options.outputPath error)) ∨
    (∃ count shown, compile source limit = .failure count shown ∧
      (∀ diagnostic ∈ shown, OneLine diagnostic.text ∧
        ∀ display : Display, ∃ line, OneLine line ∧
          display.diagnostic diagnostic = line ++ "\n") ∧
      ∀ (options : Options) (isTerminal : Bool) (files : FileSystem),
        options.limit = limit -> files.readText options.input = .ok source ->
        (run options isTerminal files).outcome = .ok (.errorsDetected count) ∧
        (options.color.colored isTerminal = false ->
          splitAtFeeds (run options isTerminal files).printed =
            shown.map Diagnostic.text ++ ["", " " ++ count.repr ++ " errors detected", ""])) := by
  rcases printable_or_oneLine source with
    ⟨lines, some_line, compiles, printable⟩ | ⟨reported, some_reported, fails, oneLine⟩
  · refine .inl ⟨lines, compiles limit, fun line listed => ?_, ?_, ?_⟩
    · exact ⟨printable line listed, (printable line listed).oneLine⟩
    · have cut := splitAtFeeds_linesText (fun line listed => (printable line listed).oneLine) ""
      rwa [String.append_empty, ← fileText_eq_linesText some_line] at cut
    · intro options isTerminal files reads
      exact run_of_success isTerminal reads (compiles options.limit)
  · refine .inr ⟨_, _, fails limit, fun diagnostic shown => ?_, ?_⟩
    · have message := oneLine diagnostic (mem_of_mem_shown shown)
      exact ⟨oneLine_text message, fun display => exists_line_of_diagnostic display message⟩
    · rintro options isTerminal files rfl reads
      obtain ⟨outcome_eq, printed_eq⟩ := run_of_failure isTerminal reads (fails options.limit)
      refine ⟨outcome_eq, fun plain => ?_⟩
      rw [printed_eq]
      refine splitAtFeeds_printed plain (fun diagnostic shown => ?_)
        (List.length_pos_iff.2 some_reported)
      exact oneLine_text (oneLine diagnostic (mem_of_mem_shown shown))

/-- A file system with one file, at the path `m`. -/
def holding (text : String) : FileSystem :=
  ⟨[], [(["m"], .file text.toUTF8.toList)]⟩

theorem readText_holding (text : String) : (holding text).readText "m" = .ok text := by
  have written : FileSystem.write ⟨[], []⟩ "m" text.toUTF8.toList = .ok (holding text) := rfl
  exact (FileSystem.onlyWritten_of_write written).readText_eq

/-- A text with characters that start no token; one of them is outside ASCII, and one is a control
character. -/
def strays : String := "é\x0b\n@"

/-- Three of four problems are kept, and each of them is a line of the printed text.  The file with
the code of an empty program is cut into the lines of the code. -/
theorem strays_line_faithful :
    (holding strays).readText "m" = .ok strays ∧
      splitAtFeeds (run ⟨"m", none, .auto, 3⟩ false (holding strays)).printed =
        ["Lexical error: line 1 -- unrecognized symbol 'é'",
          "Lexical error: line 1 -- unrecognized symbol '\x0b'",
          "Lexical error: line 2 -- unrecognized symbol '@'", "", " 4 errors detected", ""] ∧
      ∃ lines, compile "program\x7b\x7d" 3 = .success lines ∧
        (run ⟨"m", none, .auto, 3⟩ false (holding "program\x7b\x7d")).files.readText "m.ll" =
          .ok (fileText lines) ∧
        splitAtFeeds (fileText lines) = lines ++ [""] := by
  refine ⟨readText_holding strays, ?_, ?_⟩
  · have fails : compile strays 3 = .failure 4
        [⟨.lexical, 1, "unrecognized symbol 'é'"⟩, ⟨.lexical, 1, "unrecognized symbol '\x0b'"⟩,
          ⟨.lexical, 2, "unrecognized symbol '@'"⟩] := by
      have found : (analyse strays).toOption.map Analysis.diagnostics = some
          [⟨.lexical, 1, "unrecognized symbol 'é'"⟩, ⟨.lexical, 1, "unrecognized symbol '\x0b'"⟩,
            ⟨.lexical, 2, "unrecognized symbol '@'"⟩,
            ⟨.syntactic, 2, "unexpected end of file, expected 'program'"⟩] := by
        decide +kernel
      obtain ⟨analysis, analysed, verdict⟩ := exists_compile_of_analyse strays
      rw [analysed] at found
      rw [Option.some.inj found] at verdict
      rcases verdict with ⟨none_reported, -⟩ | ⟨-, fails⟩
      · cases none_reported
      · rw [fails, Log.byLine, List.mergeSort_of_pairwise (by decide)]
        rfl
    rcases outputs_line_faithful strays 3 with
      ⟨lines, compiles, -⟩ | ⟨count, shown, fails', -, prints⟩
    · cases fails.symm.trans compiles
    · obtain ⟨rfl, rfl⟩ := Outcome.failure.inj (fails.symm.trans fails')
      rw [(prints ⟨"m", none, .auto, 3⟩ false _ rfl (readText_holding strays)).2 rfl]
      decide +kernel
  · have found : (analyse "program\x7b\x7d").toOption.map Analysis.diagnostics = some [] := by
      decide +kernel
    obtain ⟨analysis, analysed, verdict⟩ := exists_compile_of_analyse "program\x7b\x7d"
    rw [analysed] at found
    rcases verdict with ⟨-, code, succeeds⟩ | ⟨some_reported, -⟩
    · rcases outputs_line_faithful "program\x7b\x7d" 3 with
        ⟨lines, compiles, -, cut, writes⟩ | ⟨count, shown, fails, -⟩
      · rcases writes ⟨"m", none, .auto, 3⟩ false _ (readText_holding _) with written | cannot
        · exact ⟨lines, compiles, written.2, cut⟩
        · obtain ⟨error, refused, -⟩ := cannot
          cases refused
      · cases (succeeds 3).symm.trans fails
    · exact absurd (Option.some.inj found) some_reported

end Command
end MiniLang
