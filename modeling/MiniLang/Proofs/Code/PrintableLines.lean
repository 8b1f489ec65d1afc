import MiniLang.Proofs.Code.RealLiterals
import MiniLang.Proofs.Text.Printable

/-!
# The lines of generated code are printable

Whatever the source text holds, the lines of its code are printable: variables have words for names,
the bytes of strings are escaped, and all else is spelled with numerals and fixed words.
-/

namespace MiniLang

namespace CodeText

theorem printable_register (register : Register) : Printable register.text :=
  .append (by decide) (printable_repr register)

theorem printable_label (label : Label) : Printable label.text := by
  cases label with
  | entry => decide
  | numbered number => exact .append (by decide) (printable_repr number)

theorem printable_operand (operand : Operand) : Printable operand.text := by
  cases operand with
  | register number => exact printable_register number
  | int value => exact printable_repr_int value.toInt
  | double bits =>
      refine .append (by decide) (printable_ofList fun character present => ?_)
      exact Hexadecimal.isPrintable_of_mem_fixed present
  | bool value => cases value <;> decide

theorem printable_codeName (type : ValueType) : Printable type.codeName := by
  cases type <;> decide

theorem printable_template (template : Template) : Printable template.name := by
  cases template <;> decide

theorem printable_operation (operation : Operation) : Printable operation.text := by
  cases operation with
  | calculate calculation type =>
      change Printable calculation.text
      cases calculation <;> decide
  | calculateReal calculation => cases calculation <;> decide
  | compare comparison type =>
      change Printable comparison.integerText
      cases comparison <;> decide
  | compareReal comparison => cases comparison <;> decide

theorem printable_bytesType (size : Nat) : Printable (Instr.bytesType size) :=
  (Printable.append (by decide) (printable_repr size)).append (by decide)

theorem printable_nameOf (number : Nat) : Printable (TextPool.nameOf number) :=
  .append (by decide) (printable_repr number)

theorem printable_define
    (target : Register)
    {right : String}
    (right_printable : Printable right) :
    Printable (Instr.define target right) :=
  ((printable_register target).append (by decide)).append right_printable

theorem printable_callPrint
    {arguments : String}
    (arguments_printable : Printable arguments) :
    Printable (Instr.callPrint arguments) :=
  (Printable.append (by decide) arguments_printable).append (by decide)

/-- An instruction is printable if the variable is whose slot it names. -/
theorem printable_instr
    {instr : Instr}
    (named : ∀ name, instr.slotName? = some name -> Printable name) :
    Printable instr.text := by
  have slot {name : String} (is_named : instr.slotName? = some name) :
      Printable (Instr.slot name) := .append (by decide) (named name is_named)
  cases instr with
  | alloca variableName type =>
      exact ((slot rfl).append (by decide)).append (printable_codeName type)
  | load target type variableName =>
      exact printable_define target (((Printable.append (by decide)
        (printable_codeName type)).append (by decide)).append (slot rfl))
  | store type value variableName =>
      exact ((((Printable.append (by decide) (printable_codeName type)).append (by decide)).append
        (printable_operand value)).append (by decide)).append (slot rfl)
  | operate target operation left right =>
      exact printable_define target ((((((printable_operation operation).append (by decide)).append
        (printable_codeName _)).append (by decide)).append (printable_operand left)).append
          (by decide) |>.append (printable_operand right))
  | fneg target value =>
      exact printable_define target (.append (by decide) (printable_operand value))
  | convert target conversion value =>
      have spelled : Printable conversion.text := by cases conversion <;> decide
      exact printable_define target ((((((spelled.append (by decide)).append
        (printable_codeName _)).append (by decide)).append (printable_operand value)).append
          (by decide)).append (printable_codeName _))
  | phi target first firstFrom second secondFrom =>
      have firstWay := ((Printable.append (by decide : Printable "phi i1 [ ")
        (printable_operand first)).append (by decide : Printable ", %")).append
          (printable_label firstFrom)
      have secondWay := (((firstWay.append (by decide : Printable " ], [ ")).append
        (printable_operand second)).append (by decide : Printable ", %")).append
          (printable_label secondFrom)
      exact printable_define target (secondWay.append (by decide))
  | select target condition yes no =>
      exact printable_define target (((((Printable.append (by decide)
        (printable_operand condition)).append (by decide)).append (printable_template yes)).append
          (by decide)).append (printable_template no))
  | print template type value =>
      exact printable_callPrint (((((Printable.append (by decide)
        (printable_template template)).append (by decide)).append (printable_codeName type)).append
          (by decide)).append (printable_operand value))
  | printSelected format => exact printable_callPrint (printable_register format)
  | printText size number =>
      exact printable_callPrint ((((Printable.append (by decide) (printable_bytesType size)).append
        (by decide)).append (printable_nameOf number)).append (by decide))
  | scan template variableName =>
      exact (((Printable.append (by decide) (printable_template template)).append
        (by decide)).append (slot rfl)).append (by decide)
  | jump target => exact .append (by decide) (printable_label target)
  | fork condition yes no =>
      have yesWay := ((Printable.append (by decide : Printable "br i1 ")
        (printable_operand condition)).append (by decide : Printable ", label %")).append
          (printable_label yes)
      exact (yesWay.append (by decide)).append (printable_label no)
  | ret => decide

theorem printable_item
    {item : Item}
    (named : ∀ name, item.slotName? = some name -> Printable name) :
    Printable item.line := by
  cases item with
  | label opened => exact (printable_label opened).append (by decide)
  | instr instruction => exact .append (by decide) (printable_instr named)

/-- The bytes of a string are escaped, so its constant is printable if its name is. -/
theorem printable_constant
    {constant : TextConstant}
    (name_printable : Printable constant.name) :
    Printable constant.line := by
  have escaped : Printable (TextConstant.escape constant.bytes) :=
    TextConstant.forall_mem_escape (by decide) (by decide) constant.bytes
  exact (((((Printable.append (by decide) name_printable).append (by decide)).append
    (printable_bytesType _)).append (by decide)).append escaped).append (by decide)

end CodeText

open CodeText

/-- The lines of a module are printable if the names of its constants and variables are. -/
theorem CodeModule.printable_lines
    {code : CodeModule}
    (constants : ∀ constant ∈ code.texts, Printable constant.name)
    (slots : ∀ item ∈ code.items, ∀ name, item.slotName? = some name -> Printable name) :
    ∀ line ∈ code.lines, Printable line := by
  have fixed : ∀ line ∈ CodeModule.middle, Printable line := by decide
  intro line present
  rw [CodeModule.lines_eq] at present
  simp only [List.mem_append, List.mem_map, List.mem_singleton] at present
  rcases present with ((⟨constant, present, rfl⟩ | present) | ⟨item, present, rfl⟩) | rfl
  · apply printable_constant
    rcases present with ⟨template, -, rfl⟩ | written
    · exact printable_template template
    · exact constants constant written
  · exact fixed line present
  · exact printable_item (slots item present)
  · decide

/-- The names that scanning gives are printable. -/
theorem Token.printable_of_mem_names
    {source name : String}
    (listed : name ∈ Token.names (Token.scan source).tokens) :
    Printable name := by
  intro character present
  exact isPrintable_of_isWordPart (Lexeme.isWordPart_of_mem_names listed character present)

/-- The lines of the code that is generated for a source text are printable. -/
theorem printable_lines_of_generate
    {source : String}
    {tags : TagTable}
    {code : CodeModule}
    (generated : (Program.ofTokens (Token.scan source).tokens).1.generate tags = .ok code) :
    ∀ line ∈ code.lines, Printable line := by
  apply CodeModule.printable_lines
  · intro constant present
    obtain ⟨-, -, -, -, -, texts⟩ := Program.stmtCode_of_generate generated
    rw [texts] at present
    obtain ⟨⟨bytes, number⟩, -, rfl⟩ := List.mem_map.1 present
    exact printable_nameOf number
  · intro item present name named
    exact Token.printable_of_mem_names (Relabelling.mem_names_of_item generated present named)

end MiniLang
