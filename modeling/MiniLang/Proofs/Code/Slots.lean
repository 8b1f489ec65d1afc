import MiniLang.Proofs.Code.Constants
import MiniLang.Proofs.Relabelling.Code
import MiniLang.Token.Lexeme

/-!
# The spelling of slots

The slot of a variable is spelled with a mark and the name.  In the text of a module the mark occurs
in slots only: every other percent sign stands before a register or a label.  So renaming the slots
in the text renames the variables of the instructions, and changes nothing else.
-/

namespace MiniLang
namespace CodeText

/-- The mark before the name of a variable. -/
def slotMark : List Char := ['%', 'v', 'a', 'r', '_']

/-- A text with other names of variables: after every mark of a slot, the word that stands there is
replaced. -/
def renameSlots (rename : String -> String) : List Char -> List Char
  | [] => []
  | character :: rest =>
    if slotMark.isPrefixOf (character :: rest) then
      let behind := (character :: rest).drop slotMark.length
      slotMark ++ (rename (String.ofList (behind.takeWhile Lexeme.isWordPart))).toList ++
        renameSlots rename (behind.dropWhile Lexeme.isWordPart)
    else character :: renameSlots rename rest
termination_by text => text.length
decreasing_by
  · have dropped := (List.dropWhile_sublist Lexeme.isWordPart (l := behind)).length_le
    simp only [behind, slotMark, List.length_drop, List.length_cons, List.length_nil] at dropped ⊢
    omega
  · simp

/-- A line with other names of variables. -/
def renameLine (rename : String -> String) (line : String) : String :=
  String.ofList (renameSlots rename line.toList)

/-- After every percent sign of a text another character than that of a slot follows. -/
def quiet : List Char -> Bool
  | [] => true
  | character :: rest => (character != '%' || rest.head?.any (· != 'v')) && quiet rest

section Quiet

variable {first second : List Char}

theorem quiet_append
    (first_quiet : quiet first = true)
    (second_quiet : quiet second = true) :
    quiet (first ++ second) = true := by
  induction first with
  | nil => exact second_quiet
  | cons character rest inductionHypothesis =>
      simp only [quiet, Bool.and_eq_true] at first_quiet
      simp only [List.cons_append, quiet, Bool.and_eq_true]
      refine ⟨?_, inductionHypothesis first_quiet.2⟩
      cases rest with
      | nil =>
          have other : character ≠ '%' := by simpa using first_quiet.1
          simp [other]
      | cons next others => exact first_quiet.1

theorem quiet_of_not_mem
    (absent : '%' ∉ first) :
    quiet first = true := by
  induction first with
  | nil => rfl
  | cons character rest inductionHypothesis =>
      rw [List.mem_cons, not_or] at absent
      simp [quiet, inductionHypothesis absent.2, Ne.symm absent.1]

/-- No mark of a slot starts inside a quiet text. -/
theorem not_slotMark_isPrefix_append
    {character : Char}
    {rest : List Char}
    (rest_quiet : quiet (character :: rest) = true)
    (second : List Char) :
    ¬slotMark <+: character :: (rest ++ second) := by
  simp only [quiet, Bool.and_eq_true] at rest_quiet
  rintro ⟨tail, spelled⟩
  obtain ⟨rfl, behind⟩ := List.cons.inj spelled
  cases rest with
  | nil => simp at rest_quiet
  | cons next others =>
      obtain ⟨rfl, -⟩ := List.cons.inj behind
      simp at rest_quiet

variable {rename : String -> String}

/-- A quiet text stays, and renaming goes on behind it. -/
theorem renameSlots_append
    (first_quiet : quiet first = true)
    (second : List Char) :
    renameSlots rename (first ++ second) = first ++ renameSlots rename second := by
  induction first with
  | nil => rfl
  | cons character rest inductionHypothesis =>
      have other := not_slotMark_isPrefix_append first_quiet second
      rw [← List.isPrefixOf_iff_prefix] at other
      simp only [quiet, Bool.and_eq_true] at first_quiet
      rw [List.cons_append, renameSlots, if_neg other, inductionHypothesis first_quiet.2]
      rfl

theorem renameSlots_eq_self
    (first_quiet : quiet first = true) :
    renameSlots rename first = first := by
  have renamed : renameSlots rename (first ++ []) = first ++ renameSlots rename [] :=
    renameSlots_append first_quiet []
  simpa [renameSlots] using renamed

/-- The word of a slot is replaced, and renaming goes on behind it. -/
theorem renameSlots_slot
    {word : List Char}
    (word_parts : ∀ character ∈ word, Lexeme.isWordPart character = true)
    (ends : second.head?.any Lexeme.isWordPart = false) :
    renameSlots rename (slotMark ++ word ++ second) =
      slotMark ++ (rename (String.ofList word)).toList ++ renameSlots rename second := by
  have run : (word ++ second).takeWhile Lexeme.isWordPart = word ∧
      (word ++ second).dropWhile Lexeme.isWordPart = second := by
    rw [List.takeWhile_append_of_pos word_parts, List.dropWhile_append_of_pos word_parts]
    cases second with
    | nil => simp
    | cons character rest =>
        have stop : Lexeme.isWordPart character = false := by simpa using ends
        simp [stop]
  have marked : slotMark.isPrefixOf (slotMark ++ word ++ second) = true := by
    rw [List.isPrefixOf_iff_prefix, List.append_assoc]
    exact List.prefix_append _ _
  have behind : (slotMark ++ word ++ second).drop slotMark.length = word ++ second := by
    rw [List.append_assoc, List.drop_left]
  obtain ⟨rest, shape⟩ : ∃ rest, slotMark ++ word ++ second = '%' :: rest := ⟨_, rfl⟩
  rw [shape] at marked behind ⊢
  rw [renameSlots, if_pos marked]
  dsimp only
  rw [behind, run.1, run.2]

end Quiet

section Lines

/-- No percent sign of a text is the mark of a slot. -/
def Quiet (text : String) : Prop :=
  quiet text.toList = true

instance (text : String) : Decidable (Quiet text) :=
  inferInstanceAs (Decidable (_ = _))

theorem Quiet.append
    {first second : String}
    (first_quiet : Quiet first)
    (second_quiet : Quiet second) :
    Quiet (first ++ second) := by
  rw [Quiet, String.toList_append]
  exact quiet_append first_quiet second_quiet

theorem quiet_repr
    (number : Nat) :
    Quiet number.repr :=
  quiet_of_not_mem (notMem_repr rfl number)

theorem not_mem_fixed
    (width value : Nat) :
    '%' ∉ Hexadecimal.fixed width value := by
  have digits : ∀ digit : Fin 16, '%' ≠ Hexadecimal.digit digit := by decide
  intro present
  obtain ⟨below, mark_eq⟩ := Hexadecimal.exists_digit_of_mem_fixed present
  exact digits below mark_eq

theorem quiet_register
    (register : Register) :
    Quiet register.text :=
  .append (by decide) (quiet_repr register)

theorem quiet_operand
    (operand : Operand) :
    Quiet operand.text := by
  cases operand with
  | register number => exact quiet_register number
  | int value =>
      refine quiet_of_not_mem fun present => ?_
      rcases isDigit_or_minus_of_mem_repr present with digit | minus
      · exact absurd digit (by decide)
      · exact absurd minus (by decide)
  | double bits =>
      refine .append (by decide) ?_
      rw [Quiet, String.toList_ofList]
      exact quiet_of_not_mem (not_mem_fixed 16 bits.toNat)
  | bool value => cases value <;> decide

/-- A percent sign before a label is no mark of a slot. -/
theorem quiet_label
    {mark : String}
    (numbered : Quiet (mark ++ "L"))
    (entry : Quiet (mark ++ "entry"))
    (label : Label) :
    Quiet (mark ++ label.text) := by
  cases label with
  | entry => exact entry
  | numbered number =>
      rw [Label.text, ← String.append_assoc]
      exact numbered.append (quiet_repr number)

theorem Quiet.label
    {front : String}
    (front_quiet : Quiet front)
    {mark : String}
    (numbered : Quiet (mark ++ "L"))
    (entry : Quiet (mark ++ "entry"))
    (label : Label) :
    Quiet (front ++ mark ++ label.text) := by
  rw [String.append_assoc]
  exact front_quiet.append (quiet_label numbered entry label)

theorem quiet_define
    (target : Register)
    {right : String}
    (right_quiet : Quiet right) :
    Quiet (Instr.define target right) :=
  ((quiet_register target).append (by decide)).append right_quiet

theorem quiet_callPrint
    {arguments : String}
    (arguments_quiet : Quiet arguments) :
    Quiet (Instr.callPrint arguments) :=
  (Quiet.append (by decide) arguments_quiet).append (by decide)

theorem quiet_bytesType
    (size : Nat) :
    Quiet (Instr.bytesType size) :=
  (Quiet.append (by decide) (quiet_repr size)).append (by decide)

theorem quiet_codeName (type : ValueType) : Quiet type.codeName := by
  cases type <;> decide

theorem quiet_template (template : Template) : Quiet template.name := by
  cases template <;> decide

theorem quiet_operation (operation : Operation) : Quiet operation.text := by
  cases operation with
  | calculate calculation type =>
      change Quiet calculation.text
      cases calculation <;> decide
  | calculateReal calculation => cases calculation <;> decide
  | compare comparison type =>
      change Quiet comparison.integerText
      cases comparison <;> decide
  | compareReal comparison => cases comparison <;> decide

end Lines

end CodeText

/-- The variable whose slot an instruction names. -/
def Instr.slotName? : Instr -> Option String
  | .alloca variableName _ => some variableName
  | .load _ _ variableName => some variableName
  | .store _ _ variableName => some variableName
  | .scan _ variableName => some variableName
  | _ => none

/-- The variable whose slot a line of a routine names. -/
def Item.slotName? : Item -> Option String
  | .label _ => none
  | .instr instruction => instruction.slotName?

namespace CodeText

/-- An instruction that names no slot is spelled without the mark of one. -/
theorem quiet_text
    {instr : Instr}
    (silent : instr.slotName? = none) :
    Quiet instr.text := by
  cases instr with
  | operate target operation left right =>
      exact quiet_define target ((((((quiet_operation operation).append (by decide)).append
        (quiet_codeName _)).append (by decide)).append (quiet_operand left)).append
          (by decide) |>.append (quiet_operand right))
  | fneg target value => exact quiet_define target (.append (by decide) (quiet_operand value))
  | convert target conversion value =>
      have spelled : Quiet conversion.text := by cases conversion <;> decide
      exact quiet_define target ((((((spelled.append (by decide)).append (quiet_codeName _)).append
        (by decide)).append (quiet_operand value)).append (by decide)).append (quiet_codeName _))
  | phi target first firstFrom second secondFrom =>
      have firstWay := Quiet.label (.append (by decide : Quiet "phi i1 [ ") (quiet_operand first))
        (by decide : Quiet (", %" ++ "L")) (by decide) firstFrom
      have secondWay := Quiet.label ((firstWay.append (by decide : Quiet " ], [ ")).append
        (quiet_operand second)) (by decide : Quiet (", %" ++ "L")) (by decide) secondFrom
      exact quiet_define target (secondWay.append (by decide))
  | select target condition yes no =>
      exact quiet_define target (((((Quiet.append (by decide) (quiet_operand condition)).append
        (by decide)).append (quiet_template yes)).append (by decide)).append (quiet_template no))
  | print template type value =>
      exact quiet_callPrint (((((Quiet.append (by decide) (quiet_template template)).append
        (by decide)).append (quiet_codeName type)).append (by decide)).append
          (quiet_operand value))
  | printSelected format => exact quiet_callPrint (quiet_register format)
  | printText size number =>
      have name_quiet : Quiet (TextPool.nameOf number) := .append (by decide) (quiet_repr number)
      exact quiet_callPrint ((((Quiet.append (by decide) (quiet_bytesType size)).append
        (by decide)).append name_quiet).append (by decide))
  | jump target => exact quiet_label (by decide) (by decide) target
  | fork condition yes no =>
      have yesWay := Quiet.label (.append (by decide : Quiet "br i1 ") (quiet_operand condition))
        (by decide : Quiet (", label %" ++ "L")) (by decide) yes
      exact Quiet.label yesWay (by decide : Quiet (", label %" ++ "L")) (by decide) no
  | ret => decide
  | _ => cases silent

variable {rename : String -> String}

theorem renameLine_eq_self
    {line : String}
    (line_quiet : Quiet line) :
    renameLine rename line = line := by
  rw [renameLine, renameSlots_eq_self line_quiet, String.ofList_toList]

/-- The name of the only slot of a line is replaced. -/
theorem renameLine_slot
    (lineOf : String -> String)
    (front back : String)
    (front_quiet : Quiet front)
    (back_quiet : Quiet back)
    (ends : back.toList.head?.any Lexeme.isWordPart = false)
    (spelled : ∀ name, lineOf name = front ++ Instr.slot name ++ back)
    {name : String}
    (word_parts : ∀ character ∈ name.toList, Lexeme.isWordPart character = true) :
    renameLine rename (lineOf name) = lineOf (rename name) := by
  have cut : (front ++ Instr.slot name ++ back).toList =
      front.toList ++ (slotMark ++ name.toList ++ back.toList) := by
    simp only [Instr.slot, String.toList_append, List.append_assoc]
    rfl
  have joined : (front ++ Instr.slot (rename name) ++ back).toList =
      front.toList ++ (slotMark ++ (rename name).toList ++ back.toList) := by
    simp only [Instr.slot, String.toList_append, List.append_assoc]
    rfl
  rw [spelled, spelled, renameLine, cut, renameSlots_append front_quiet,
    renameSlots_slot word_parts ends, renameSlots_eq_self back_quiet, String.ofList_toList,
    ← joined, String.ofList_toList]

/-- Renaming the slots of a line renames the variables of what it is the line of. -/
theorem renameLine_line
    {item : Item}
    (word_parts : ∀ name, item.slotName? = some name ->
      ∀ character ∈ name.toList, Lexeme.isWordPart character = true) :
    renameLine rename item.line = (item.rename rename).line := by
  cases item with
  | label opened =>
      have spelled : Quiet opened.text := by
        have alone := quiet_label (by decide : Quiet ("" ++ "L")) (by decide) opened
        rwa [String.empty_append] at alone
      exact renameLine_eq_self (spelled.append (by decide))
  | instr instruction =>
      cases silent : instruction.slotName? with
      | none =>
          have kept : instruction.rename rename = instruction := by
            cases instruction <;> first | rfl | cases silent
          rw [Item.rename, kept]
          exact renameLine_eq_self (.append (by decide) (quiet_text silent))
      | some name =>
          have parts := word_parts name silent
          cases instruction with
          | alloca variableName type =>
              cases silent
              exact renameLine_slot (fun name => (Item.instr (.alloca name type)).line) "  "
                (" = alloca " ++ type.codeName) (by decide) (.append (by decide) (quiet_codeName _))
                (by cases type <;> decide)
                (fun name => by
                  change "  " ++ (Instr.slot name ++ " = alloca " ++ type.codeName) = _
                  rw [String.append_assoc, String.append_assoc])
                parts
          | load target type variableName =>
              cases silent
              exact renameLine_slot (fun name => (Item.instr (.load target type name)).line)
                ("  " ++ Instr.define target ("load " ++ type.codeName ++ ", ptr ")) ""
                (.append (by decide) (quiet_define target
                  ((Quiet.append (by decide) (quiet_codeName _)).append (by decide))))
                (by decide) (by decide)
                (fun name => by
                  change "  " ++ Instr.define target ("load " ++ type.codeName ++ ", ptr " ++
                    Instr.slot name) = _
                  simp only [Instr.define, String.append_assoc, String.append_empty])
                parts
          | store type value variableName =>
              cases silent
              exact renameLine_slot (fun name => (Item.instr (.store type value name)).line)
                ("  " ++ ("store " ++ type.codeName ++ " " ++ value.text ++ ", ptr ")) ""
                (.append (by decide) ((((Quiet.append (by decide) (quiet_codeName _)).append
                  (by decide)).append (quiet_operand value)).append (by decide)))
                (by decide) (by decide)
                (fun name => by
                  change "  " ++ ("store " ++ type.codeName ++ " " ++ value.text ++ ", ptr " ++
                    Instr.slot name) = _
                  simp only [String.append_assoc, String.append_empty])
                parts
          | scan template variableName =>
              cases silent
              exact renameLine_slot (fun name => (Item.instr (.scan template name)).line)
                ("  " ++ ("call i32 (ptr, ...) @scanf(ptr @" ++ template.name ++ ", ptr ")) ")"
                (.append (by decide) ((Quiet.append (by decide) (quiet_template _)).append
                  (by decide)))
                (by decide) (by decide)
                (fun name => by
                  change "  " ++ ("call i32 (ptr, ...) @scanf(ptr @" ++ template.name ++ ", ptr " ++
                    Instr.slot name ++ ")") = _
                  simp only [String.append_assoc])
                parts
          | _ => cases silent

/-- The line of a constant with a quiet name names no slot. -/
theorem quiet_constant
    {constant : TextConstant}
    (name_quiet : Quiet constant.name) :
    Quiet constant.line := by
  have apart : ∀ character ∈ (TextConstant.escape constant.bytes).toList, character ≠ '%' :=
    TextConstant.forall_mem_escape (by decide) (by decide) constant.bytes
  have escaped : Quiet (TextConstant.escape constant.bytes) :=
    quiet_of_not_mem fun present => apart '%' present rfl
  exact (((((Quiet.append (by decide) name_quiet).append (by decide)).append
    (quiet_bytesType _)).append (by decide)).append escaped).append (by decide)

/-- Renaming the slots in the lines of a module renames the variables of its routine. -/
theorem map_renameLine_lines
    {code : CodeModule}
    (names_quiet : ∀ constant ∈ code.texts, Quiet constant.name)
    (word_parts : ∀ item ∈ code.items, ∀ name, item.slotName? = some name ->
      ∀ character ∈ name.toList, Lexeme.isWordPart character = true) :
    code.lines.map (renameLine rename) =
      CodeModule.lines ⟨code.texts, code.items.map (Item.rename rename)⟩ := by
  have constants_eq : ((Template.all.map Template.constant ++ code.texts).map
      TextConstant.line).map (renameLine rename) =
      (Template.all.map Template.constant ++ code.texts).map TextConstant.line := by
    rw [List.map_map]
    apply List.map_congr_left
    intro constant present
    refine renameLine_eq_self (quiet_constant ?_)
    rcases List.mem_append.1 present with fixed | written
    · obtain ⟨template, -, rfl⟩ := List.mem_map.1 fixed
      exact quiet_template template
    · exact names_quiet constant written
  have items_eq : (code.items.map Item.line).map (renameLine rename) =
      (code.items.map (Item.rename rename)).map Item.line := by
    rw [List.map_map, List.map_map]
    apply List.map_congr_left
    intro item present
    exact renameLine_line (word_parts item present)
  have fixed_eq (lines : List String) (lines_quiet : ∀ line ∈ lines, Quiet line) :
      lines.map (renameLine rename) = lines := by
    conv_rhs => rw [← List.map_id lines]
    apply List.map_congr_left
    intro line present
    exact renameLine_eq_self (lines_quiet line present)
  rw [CodeModule.lines_eq, CodeModule.lines_eq, List.map_append, List.map_append,
    List.map_append, constants_eq, items_eq, fixed_eq CodeModule.middle (by decide),
    fixed_eq [CodeModule.closingLine] (by decide)]

end CodeText
end MiniLang
