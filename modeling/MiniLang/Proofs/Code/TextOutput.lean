import Mathlib.Data.List.Induction
import MiniLang.Proofs.Code.Agreement
import MiniLang.Proofs.Code.LineWords
import MiniLang.Proofs.Code.Visited

/-!
# What string statements print

A string statement passes its constant to the print routine, which takes it for a format: the output
ends before the first zero byte, and a percent sign begins a conversion.  Here the output of each such
call is worked out from the lines of the code alone.  It is what the bytes of the string print as a
format, and these are the bytes themselves if and only if no zero byte and no percent sign is among
them.
-/

namespace MiniLang

/-! ## Formats without arguments -/

namespace PrintRoutine

/-- The byte that begins a conversion. -/
def percent : UInt8 := 37

/-- What is printed for a format to which no arguments are given, as far as that is determined.  The
output ends before a zero byte, which has to come, and two percent signs print one.  Any other
conversion would take an argument. -/
def printed? : List UInt8 -> Option (List UInt8)
  | [] => none
  | [byte] => if byte = 0 then some [] else none
  | byte :: next :: rest =>
      if byte = 0 then some []
      else if byte ≠ percent then (printed? (next :: rest)).map (byte :: ·)
      else if next = percent then (printed? rest).map (percent :: ·)
      else none

/-- Whether a byte stands for itself in a format. -/
def isPlain (byte : UInt8) : Bool :=
  byte ≠ 0 && byte ≠ percent

theorem printed?_cons
    {byte : UInt8}
    (plain : isPlain byte = true)
    {rest : List UInt8}
    (nonempty : rest ≠ []) :
    printed? (byte :: rest) = (printed? rest).map (byte :: ·) := by
  obtain ⟨next, rest, rfl⟩ := List.exists_cons_of_ne_nil nonempty
  simp only [isPlain, Bool.and_eq_true, decide_eq_true_eq] at plain
  rw [printed?, if_neg plain.1, if_pos plain.2]

/-- Bytes that stand for themselves are printed as they are. -/
theorem printed?_of_plain
    {bytes : List UInt8}
    (plain : ∀ byte ∈ bytes, isPlain byte = true) :
    printed? (bytes ++ [0]) = some bytes := by
  induction bytes with
  | nil => rfl
  | cons byte bytes inductionHypothesis =>
      rw [List.forall_mem_cons] at plain
      rw [List.cons_append, printed?_cons plain.1 (by simp), inductionHypothesis plain.2]
      rfl

theorem eq_of_isPlain_eq_false
    {byte : UInt8}
    (special : isPlain byte = false) :
    byte = 0 ∨ byte = percent := by
  simpa [isPlain, ← or_iff_not_imp_left] using special

/-- No more is printed than the bytes of the format, and less if one of them does not stand for
itself. -/
theorem length_printed?
    {bytes output : List UInt8}
    (printed : printed? (bytes ++ [0]) = some output) :
    output.length ≤ bytes.length ∧
      (output.length = bytes.length -> ∀ byte ∈ bytes, isPlain byte = true) := by
  induction bytes using List.twoStepInduction generalizing output with
  | nil =>
      cases printed
      simp
  | singleton byte =>
      cases plain : isPlain byte with
      | true =>
          rw [List.singleton_append, printed?_cons plain (by simp)] at printed
          cases printed
          simp [plain]
      | false =>
          rcases eq_of_isPlain_eq_false plain with rfl | rfl
          · cases printed
            simp
          · cases printed
  | cons_cons byte next bytes shorter inductionHypothesis =>
      cases plain : isPlain byte with
      | true =>
          rw [List.cons_append, printed?_cons plain (by simp)] at printed
          obtain ⟨rest, restPrinted, rfl⟩ := Option.map_eq_some_iff.1 printed
          obtain ⟨bounded, strict⟩ := inductionHypothesis next restPrinted
          refine ⟨Nat.succ_le_succ bounded, fun equal => ?_⟩
          exact List.forall_mem_cons.2 ⟨plain, strict (Nat.succ.inj equal)⟩
      | false =>
          rcases eq_of_isPlain_eq_false plain with rfl | rfl
          · cases printed
            simp
          · change (if next = percent then (printed? (bytes ++ [0])).map _ else none) = _ at printed
            split at printed
            · obtain ⟨rest, restPrinted, rfl⟩ := Option.map_eq_some_iff.1 printed
              have bounded := (shorter restPrinted).1
              simp only [List.length_cons]
              exact ⟨by omega, fun equal => by omega⟩
            · cases printed

/-- The bytes of a string are printed as they are if and only if each stands for itself. -/
theorem printed?_eq_some_iff
    (bytes : List UInt8) :
    printed? (bytes ++ [0]) = some bytes ↔ 0 ∉ bytes ∧ percent ∉ bytes := by
  have plain_iff : (∀ byte ∈ bytes, isPlain byte = true) ↔ 0 ∉ bytes ∧ percent ∉ bytes := by
    simp only [isPlain, Bool.and_eq_true, decide_eq_true_eq, forall_and]
    exact and_congr List.forall_mem_ne' List.forall_mem_ne'
  rw [← plain_iff]
  exact ⟨fun printed => (length_printed? printed).2 rfl, printed?_of_plain⟩

end PrintRoutine

/-! ## The output of a call -/

namespace CodeText

open PrintRoutine

/-- The constant whose first byte a call is given the address of. -/
def addressed? (line : String) : Option String :=
  (instruction? line).bind fun spelling =>
    if spelling[6]? = some "getelementptr".toList ∧ spelling[16]? = some ['0'] ∧
        spelling[19]? = some "0))".toList then
      spelling[13]?.map String.ofList
    else none

/-- What stands between the first two quotes. -/
def quoted (text : List Char) : List Char :=
  ((text.dropWhile (· ≠ '"')).drop 1).takeWhile (· ≠ '"')

/-- The bytes of a constant by its name, if one line gives them. -/
def constantBytes? (lines : List String) (name : String) : Option (List UInt8) :=
  match lines.filter fun line => constantName? line = some name with
  | [line] => decodeEscapes (quoted line.toList)
  | _ => none

/-- What a call of the print routine prints in a module with given lines, if it is given a constant
and no arguments. -/
def output? (lines : List String) (call : String) : Option (List UInt8) := do
  let name ← addressed? call
  let format ← constantBytes? lines name
  printed? format

theorem addressed?_textCall
    (number size : Nat) :
    addressed? (textCall number size) = some ("@str_" ++ number.repr) := by
  have spelled : String.ofList ("@str_".toList ++ number.repr.toList) = "@str_" ++ number.repr := by
    rw [String.ofList_append, String.ofList_toList, String.ofList_toList]
  have unnamed : ∀ name, (Instr.printText size number).slotName? = some name ->
      Solid name.toList := by
    intro name named
    cases named
  rw [← line_printText, addressed?, instruction?_line, Option.bind_some, words_text _ unnamed,
    if_pos ⟨rfl, rfl, rfl⟩, ← spelled]
  rfl

theorem quoted_append
    {front inside : List Char}
    (front_bare : '"' ∉ front)
    (inside_bare : '"' ∉ inside)
    (back : List Char) :
    quoted (front ++ '"' :: (inside ++ '"' :: back)) = inside := by
  have bare {text : List Char} (missing : '"' ∉ text) :
      ∀ character ∈ text, decide (character ≠ '"') = true := by
    intro character listed
    rw [decide_eq_true_eq]
    rintro rfl
    exact missing listed
  rw [quoted, List.dropWhile_append_of_pos (bare front_bare),
    List.dropWhile_cons_of_neg (by decide), List.drop_one, List.tail_cons,
    List.takeWhile_append_of_pos (bare inside_bare), List.takeWhile_cons_of_neg (by decide),
    List.append_nil]

theorem quote_notMem_escape
    (bytes : List UInt8) :
    '"' ∉ (TextConstant.escape bytes).toList := by
  have apart : ∀ character ∈ (TextConstant.escape bytes).toList, character ≠ '"' :=
    TextConstant.forall_mem_escape (by decide) (by decide) bytes
  exact fun listed => apart '"' listed rfl

/-- The line of a constant holds its escapes between quotes. -/
theorem quoted_constantLine
    (number size : Nat)
    (bytes : List UInt8) :
    quoted (constantLine number size (TextConstant.escape bytes)).toList =
      (TextConstant.escape bytes).toList := by
  have spelled : (constantLine number size (TextConstant.escape bytes)).toList =
      ("@str_".toList ++ number.repr.toList ++ " = private unnamed_addr constant [".toList ++
        size.repr.toList ++ " x i8] c".toList) ++ '"' ::
          ((TextConstant.escape bytes).toList ++ '"' :: []) := by
    have closing : " x i8] c\"".toList = " x i8] c".toList ++ ['"'] := by decide
    rw [constantLine]
    simp only [String.toList_append, closing, List.append_assoc, List.cons_append,
      List.nil_append]
    rfl
  rw [spelled, quoted_append _ (quote_notMem_escape _)]
  simp only [List.mem_append, not_or]
  exact ⟨⟨⟨⟨by decide, notMem_repr rfl number⟩, by decide⟩, notMem_repr rfl size⟩, by decide⟩

end CodeText

open CodeText PrintRoutine

/-- A call with a string constant prints what the bytes of the string and a zero byte print as a
format. -/
theorem CodeModule.output?_textCall
    {code : CodeModule}
    {pool : TextPool}
    {number : Nat}
    {bytes : List UInt8}
    (texts_eq : code.texts = pool.toList)
    (found : pool.constants.toList[number]? = some bytes)
    (size : Nat) :
    output? code.lines (textCall number size) = printed? (bytes ++ [0]) := by
  have bytes_eq : constantBytes? code.lines ("@str_" ++ number.repr) = some (bytes ++ [0]) := by
    rw [constantBytes?, CodeModule.filter_lines texts_eq found]
    change decodeEscapes (quoted _) = _
    rw [quoted_constantLine, decodeEscapes_escape]
  rw [output?, addressed?_textCall]
  change (constantBytes? code.lines _).bind printed? = _
  rw [bytes_eq]
  rfl

/-! ## The strings of a program -/

/-- The call with a string constant that a line of a routine is. -/
def Item.textCall? : Item -> Option String
  | .instr (.printText size number) => some (textCall number size)
  | _ => none

theorem Item.landmark?_bind_text?
    (item : Item) :
    item.landmark?.bind Landmark.text? = item.textCall? := by
  cases item with
  | label => rfl
  | instr instr => cases instr <;> rfl

/-- The calls with string constants in a module are those of its routine. -/
theorem CodeModule.filter_lines_isTextCall
    (code : CodeModule) :
    code.lines.filter isTextCall = code.items.filterMap Item.textCall? := by
  rw [filter_isTextCall, code.filterMap_landmark?, Landmark.calls, Item.landmarks,
    List.filterMap_filterMap]
  exact List.filterMap_congr fun item _ => item.landmark?_bind_text?

namespace Program

/-- The number of the string that a visited statement writes. -/
def textNumber? (program : Program) : Visit -> Option Nat
  | .expr _ => none
  | .stmt id => program.forest.stmts[id]?.bind fun node => node.form.text?

/-- The string that a visited statement writes. -/
def written? (program : Program) (visit : Visit) : Option (List UInt8) :=
  (program.textNumber? visit).bind fun number => program.forest.texts.constants[number]?

/-- The call for a visited statement that writes a string. -/
def textCall? (program : Program) (visit : Visit) : Option String :=
  (program.textNumber? visit).bind fun number =>
    program.forest.texts.constants[number]?.map fun bytes => textCall number (bytes.length + 1)

end Program

namespace Lowering

section Own

variable {context : Context} {items : List Item}

theorem CoercionCode.filterMap_textCall?
    {value result : Operand}
    {type wanted : ValueType}
    {registers registers' : Nat}
    (coerced : CoercionCode value type wanted registers items result registers') :
    items.filterMap Item.textCall? = [] := by
  cases coerced <;> rfl

/-- No call prints a string for an expression. -/
theorem ExprOwn.filterMap_textCall?
    {form : ExprForm}
    (own : ExprOwn context form items) :
    items.filterMap Item.textCall? = [] := by
  cases own with
  | int | double | bool | name | logical => rfl
  | assign _ _ coerced =>
      rw [List.filterMap_append, coerced.filterMap_textCall?]
      rfl
  | unary _ unaryCode =>
      cases unaryCode with
      | applied lowered => cases lowered <;> rfl
      | kept => rfl
  | binary _ _ _ _ leftCoerced rightCoerced =>
      rw [List.filterMap_append, List.filterMap_append, leftCoerced.filterMap_textCall?,
        rightCoerced.filterMap_textCall?]
      rfl

/-- A statement that writes a string calls for it, and no other statement does. -/
theorem StmtOwn.filterMap_textCall?
    {form : StmtForm}
    (own : StmtOwn context form items) :
    items.filterMap Item.textCall? = (form.text?.bind fun number =>
      context.texts.constants[number]?.map fun bytes => textCall number (bytes.length + 1)).toList := by
  cases own with
  | control quiet =>
      cases form with
      | writeText => cases quiet
      | _ => rfl
  | write print => cases print <;> rfl
  | writeText found =>
      obtain ⟨bytes, held, rfl⟩ := Option.map_eq_some_iff.1 found
      change _ = (Option.map _ _).toList
      rw [held]
      rfl
  | read => rfl

end Own

/-- Calls with string constants, gathered from the code and owed by the statements that write
strings. -/
def textSurvey (program : Program) (tags : TagTable) : Survey String where
  context := program.context tags
  forest := program.forest
  gather item := item.textCall?.toList
  due visit := (program.textCall? visit).toList

section Survey

variable {program : Program} {tags : TagTable}

theorem gathered_textSurvey
    (code : List Item) :
    (textSurvey program tags).gathered code = code.filterMap Item.textCall? :=
  (List.filterMap_eq_flatMap_toList _ code).symm

theorem owed_textSurvey
    (visits : List Visit) :
    (textSurvey program tags).owed visits = visits.filterMap program.textCall? :=
  (List.filterMap_eq_flatMap_toList _ visits).symm

theorem sound_textSurvey
    (wellFounded : program.WellFounded)
    (tags : TagTable) :
    (textSurvey program tags).Sound where
  wellFounded := wellFounded.forest
  framing := by
    intro item frames
    change item.textCall?.toList = []
    unfold Item.textCall?
    split
    · cases frames
    · rfl
  expr := by
    intro id node own found adds
    rw [gathered_textSurvey, adds.filterMap_textCall?]
    rfl
  stmt := by
    intro id node own found adds
    change program.forest.stmts[id]? = some node at found
    rw [gathered_textSurvey, adds.filterMap_textCall?]
    change _ = (program.textCall? (.stmt id)).toList
    rw [Program.textCall?, Program.textNumber?, found]
    rfl

end Survey

end Lowering

open Lowering

/-- The calls of a module print what the strings that its statements write print as formats. -/
theorem Program.map_output?_calls
    {program : Program}
    {code : CodeModule}
    (texts_eq : code.texts = program.forest.texts.toList)
    (visits : List Visit) :
    (visits.filterMap program.textCall?).map (output? code.lines) =
      (visits.filterMap program.written?).map fun bytes => printed? (bytes ++ [0]) := by
  rw [List.map_filterMap, List.map_filterMap]
  refine List.filterMap_congr fun visit _ => ?_
  rw [Program.textCall?, Program.written?]
  cases program.textNumber? visit with
  | none => rfl
  | some number =>
      rw [Option.bind_some, Option.bind_some, Option.map_map]
      cases held : program.forest.texts.constants[number]? with
      | none => rfl
      | some bytes =>
          rw [Option.map_some, Option.map_some, Function.comp_apply,
            CodeModule.output?_textCall texts_eq (Array.getElem?_toList.trans held)]

/-- The calls for the strings of a pool print, in order, what the strings print as formats. -/
theorem CodeModule.map_output?_zipIdx
    {code : CodeModule}
    {pool : TextPool}
    (texts_eq : code.texts = pool.toList) :
    (pool.constants.toList.zipIdx.map fun entry => textCall entry.2 (entry.1.length + 1)).map
        (output? code.lines) =
      pool.constants.toList.map fun bytes => printed? (bytes ++ [0]) := by
  rw [List.map_map]
  calc
    _ = pool.constants.toList.zipIdx.map ((fun bytes => printed? (bytes ++ [0])) ∘ Prod.fst) := by
        refine List.map_congr_left fun entry listed => ?_
        have found := List.mem_zipIdx_iff_getElem?.1 listed
        exact CodeModule.output?_textCall texts_eq found _
    _ = _ := by rw [← List.map_map, List.zipIdx_map_fst]

/-- In a source text that compiles, the calls with string constants print what the string literals
print as formats. -/
theorem outputs_of_success
    {source : String}
    {limit : Nat}
    {lines : List String}
    (succeeds : compile source limit = .success lines) :
    (lines.filter isTextCall).map (output? lines) =
      (Token.literals (Token.scan source).tokens).map fun bytes => printed? (bytes ++ [0]) := by
  obtain ⟨tokens, line, tree, tags, code, tokens_eq, derives, generated, rfl⟩ :=
    exists_derives_of_success succeeds
  have readBack := Program.readsBack_of_derives derives line
  rw [← tokens_eq] at readBack
  have wellFounded := Program.wellFounded_ofTokens (Token.scan source).tokens
  obtain ⟨-, -, -, -, -, texts_eq⟩ := Program.stmtCode_of_generate generated
  have literals_eq : Token.literals (Token.scan source).tokens = tree.body.texts := by
    rw [tokens_eq, Token.literals_append, derives.texts_eq]
    exact List.append_nil _
  have calls_eq : code.lines.filter isTextCall =
      tree.body.texts.zipIdx.map fun entry => textCall entry.2 (entry.1.length + 1) := by
    rw [filter_isTextCall, wellFounded.landmarks_eq readBack generated, Landmark.calls_append,
      Clause.calls_outline]
    exact List.append_nil _
  rw [calls_eq, literals_eq, ← readBack.texts_eq]
  exact CodeModule.map_output?_zipIdx texts_eq

/-- A string statement prints its string as a format.  In the code of a well-founded program that is
accepted, the calls with string constants are those for the visited statements that write strings, in
order, and each prints what the bytes of the string and a zero byte print as a format without
arguments.  In a source text that compiles, these are the string literals of the text.  What is
printed are the bytes of the string if and only if there is no zero byte and no percent sign among
them. -/
theorem strings_print_as_formats :
    (∀ (program : Program) (tags : TagTable),
      program.WellFounded -> program.check = .ok (tags, []) ->
      ∃ code visits,
        program.generate tags = .ok code ∧
        (∀ sequence, program.forest.VisitsStmts program.body sequence ↔ sequence = visits) ∧
        code.lines.filter isTextCall = visits.filterMap program.textCall? ∧
        (code.lines.filter isTextCall).map (output? code.lines) =
          (visits.filterMap program.written?).map fun bytes => printed? (bytes ++ [0])) ∧
      (∀ (source : String) (limit : Nat) (lines : List String),
        compile source limit = .success lines ->
        (lines.filter isTextCall).map (output? lines) =
          (Token.literals (Token.scan source).tokens).map fun bytes => printed? (bytes ++ [0])) ∧
      ∀ bytes : List UInt8,
        printed? (bytes ++ [0]) = some bytes ↔ 0 ∉ bytes ∧ percent ∉ bytes := by
  refine ⟨fun program tags wellFounded accepts => ?_, fun _ _ _ => outputs_of_success,
    printed?_eq_some_iff⟩
  obtain ⟨code, generated⟩ := wellFounded.exists_generate accepts
  obtain ⟨visits, made⟩ :=
    wellFounded.forest.exists_visitsStmts program.body wellFounded.body_lt
  obtain ⟨-, -, -, -, -, texts_eq⟩ := Program.stmtCode_of_generate generated
  have accounts := Program.accounts_of_generate (sound_textSurvey wellFounded tags) rfl rfl made
    generated
  have calls_eq : code.lines.filter isTextCall = visits.filterMap program.textCall? := by
    rw [code.filter_lines_isTextCall, ← owed_textSurvey, ← accounts.balance, gathered_textSurvey]
  refine ⟨code, visits, generated, fun sequence => ⟨fun other => other.unique made, ?_⟩, calls_eq, ?_⟩
  · rintro rfl
    exact made
  · rw [calls_eq, Program.map_output?_calls texts_eq]

/-- A program that writes a string with a percent sign before and after one without. -/
def signs : Program :=
  let plain := (Forest.empty.addText 1 [111, 107]).2
  (Program.assemble [] [1, 0, 1] (plain.addText 1 [37, 37]).2).1

/-- A source text with a string literal. -/
def greeting : String := "program \x7b write \"hé\"; \x7d"

/-- Two percent signs print one, and a string without any is printed as it is. -/
theorem signs_print_as_formats :
    signs.WellFounded ∧ signs.check = .ok (⟨#[]⟩, []) ∧
      (∃ code, signs.generate ⟨#[]⟩ = .ok code ∧
        (code.lines.filter isTextCall).map (output? code.lines) =
          [some [37], some [111, 107], some [37]]) ∧
      ∃ lines, compile greeting 1 = .success lines ∧
        (lines.filter isTextCall).map (output? lines) = [some [104, 195, 169]] := by
  have built : signs.Built :=
    .assemble _ _ _ (.addText 1 _ (.addText 1 _ .empty)) (by decide)
  have checked : signs.check = .ok (⟨#[]⟩, []) := rfl
  have last : signs.forest.VisitsStmts [1] ([] ++ .stmt 1 :: ([] ++ [])) :=
    .cons rfl .nil .nil .nil
  have later : signs.forest.VisitsStmts [0, 1] ([] ++ .stmt 0 :: ([] ++ [.stmt 1])) :=
    .cons rfl .nil .nil last
  have made : signs.forest.VisitsStmts [1, 0, 1] ([] ++ .stmt 1 :: ([] ++ [.stmt 0, .stmt 1])) :=
    .cons rfl .nil .nil later
  obtain ⟨code, visits, generated, visits_iff, -, printed⟩ :=
    strings_print_as_formats.1 signs _ built.wellFounded checked
  obtain rfl := (visits_iff _).1 made
  obtain ⟨lines, succeeds⟩ :=
    Outcome.exists_of_isSuccess (by decide +kernel : (compile greeting 1).isSuccess = true)
  refine ⟨built.wellFounded, checked, ⟨code, generated, printed⟩, lines, succeeds, ?_⟩
  rw [strings_print_as_formats.2.1 greeting 1 lines succeeds]
  decide +kernel

/-- A source text with a string literal that holds percent signs. -/
def discount : String := "program \x7b write \"50%%\"; \x7d"

/-- This literal is not printed as it is: one of its percent signs is lost. -/
theorem discount_loses_sign :
    ∃ lines, compile discount 1 = .success lines ∧
      Token.literals (Token.scan discount).tokens = [[53, 48, 37, 37]] ∧
      (lines.filter isTextCall).map (output? lines) = [some [53, 48, 37]] ∧
      (lines.filter isTextCall).map (output? lines) ≠ [some [53, 48, 37, 37]] := by
  obtain ⟨lines, succeeds⟩ :=
    Outcome.exists_of_isSuccess (by decide +kernel : (compile discount 1).isSuccess = true)
  refine ⟨lines, succeeds, by decide +kernel, ?_, ?_⟩
  · rw [outputs_of_success succeeds]
    decide +kernel
  · rw [outputs_of_success succeeds]
    decide +kernel

end MiniLang
