import MiniLang.Proofs.Code.Literals
import MiniLang.Proofs.Code.Slots

/-!
# The words of an instruction

The line of an instruction falls into words at its blanks and commas.  Here they are listed one by
one, so that whatever is read off the words of a line is known for each instruction.  The names of
variables must not be parted by the separators themselves.
-/

namespace MiniLang

namespace CodeText

/-- The words before the arguments of a call. -/
def callWords (routine : String) : List (List Char) :=
  ["call".toList, "i32".toList, "(ptr".toList, [], "...)".toList, routine.toList]

/-- The word that names a block. -/
def labelWord (label : Label) : List Char :=
  '%' :: label.text.toList

/-- The word that names a format. -/
def templateWord (template : Template) : List Char :=
  '@' :: template.name.toList

/-- The words of the line of an instruction. -/
def wordsOf : Instr -> List (List Char)
  | .alloca variableName type =>
      [(Instr.slot variableName).toList, ['='], "alloca".toList, type.codeName.toList]
  | .load target type variableName =>
      [target.text.toList, ['='], "load".toList, type.codeName.toList, [], "ptr".toList,
        (Instr.slot variableName).toList]
  | .store type value variableName =>
      ["store".toList, type.codeName.toList, value.text.toList, [], "ptr".toList,
        (Instr.slot variableName).toList]
  | .operate target operation left right =>
      target.text.toList :: ['='] :: words operation.text.toList ++
        [operation.operandType.codeName.toList, left.text.toList, [], right.text.toList]
  | .fneg target value =>
      [target.text.toList, ['='], "fneg".toList, "double".toList, value.text.toList]
  | .convert target conversion value =>
      [target.text.toList, ['='], conversion.text.toList, conversion.source.codeName.toList,
        value.text.toList, "to".toList, conversion.result.codeName.toList]
  | .phi target first firstFrom second secondFrom =>
      [target.text.toList, ['='], "phi".toList, "i1".toList, ['['], first.text.toList, [],
        labelWord firstFrom, [']'], [], ['['], second.text.toList, [], labelWord secondFrom, [']']]
  | .select target condition yes no =>
      [target.text.toList, ['='], "select".toList, "i1".toList, condition.text.toList, [],
        "ptr".toList, templateWord yes, [], "ptr".toList, templateWord no]
  | .print template type value =>
      callWords "@printf(ptr" ++
        [templateWord template, [], type.codeName.toList, value.text.toList ++ [')']]
  | .printSelected format => callWords "@printf(ptr" ++ [format.text.toList ++ [')']]
  | .printText size number =>
      callWords "@printf(ptr" ++
        ["getelementptr".toList, "inbounds".toList, "([".toList ++ size.repr.toList, ['x'],
          "i8]".toList, [], "ptr".toList, "@str_".toList ++ number.repr.toList, [], "i32".toList,
          ['0'], [], "i32".toList, "0))".toList]
  | .scan template variableName =>
      callWords "@scanf(ptr" ++
        [templateWord template, [], "ptr".toList, (Instr.slot variableName).toList ++ [')']]
  | .jump target => ["br".toList, "label".toList, labelWord target]
  | .fork condition yes no =>
      ["br".toList, "i1".toList, condition.text.toList, [], "label".toList, labelWord yes, [],
        "label".toList, labelWord no]
  | .ret => ["ret".toList, "i32".toList, ['0']]

/-- Words behind a text that falls into words itself. -/
theorem words_append_words
    (front rest : List Char)
    {separator : Char}
    (separates : isSeparator separator = true) :
    words (front ++ separator :: rest) = words front ++ words rest :=
  List.splitOnP_append_cons front rest separates

theorem solid_codeName
    (type : ValueType) :
    Solid type.codeName.toList := by
  cases type <;> decide

theorem solid_templateWord
    (template : Template) :
    Solid (templateWord template) := by
  cases template <;> decide

theorem solid_labelWord
    (label : Label) :
    Solid (labelWord label) :=
  solid_marked label

theorem solid_slot
    {name : String}
    (solid : Solid name.toList) :
    Solid (Instr.slot name).toList := by
  rw [Instr.slot, String.toList_append]
  exact Solid.append (by decide) solid

section Instructions

variable {type : ValueType} {target : Register} {variableName : String}

theorem words_alloca
    (solid : Solid variableName.toList) :
    words (Instr.alloca variableName type).text.toList = wordsOf (.alloca variableName type) := by
  have spelled : (Instr.alloca variableName type).text.toList =
      (Instr.slot variableName).toList ++ ' ' :: (['='] ++ ' ' :: ("alloca".toList ++ ' ' ::
        type.codeName.toList)) := by
    change (Instr.slot variableName ++ " = alloca " ++ type.codeName).toList = _
    simp
  rw [spelled, words_append (solid_slot solid) rfl, words_append (by decide) rfl,
    words_append (by decide) rfl, words_solid (solid_codeName type)]
  rfl

theorem words_load
    (solid : Solid variableName.toList) :
    words (Instr.load target type variableName).text.toList =
      wordsOf (.load target type variableName) := by
  have spelled : ("load " ++ type.codeName ++ ", ptr " ++ Instr.slot variableName).toList =
      "load".toList ++ ' ' :: (type.codeName.toList ++ ',' :: ([] ++ ' ' :: ("ptr".toList ++ ' ' ::
        (Instr.slot variableName).toList))) := by
    simp
  change words (Instr.define target _).toList = _
  rw [words_define, spelled, words_append (by decide) rfl, words_append (solid_codeName type) rfl,
    words_append (by decide) rfl, words_append (by decide) rfl, words_solid (solid_slot solid)]
  rfl

theorem words_store
    (value : Operand)
    (solid : Solid variableName.toList) :
    words (Instr.store type value variableName).text.toList =
      wordsOf (.store type value variableName) := by
  have spelled : (Instr.store type value variableName).text.toList =
      "store".toList ++ ' ' :: (type.codeName.toList ++ ' ' :: (value.text.toList ++ ',' :: ([] ++
        ' ' :: ("ptr".toList ++ ' ' :: (Instr.slot variableName).toList)))) := by
    change ("store " ++ type.codeName ++ " " ++ value.text ++ ", ptr " ++
      Instr.slot variableName).toList = _
    simp
  rw [spelled, words_append (by decide) rfl, words_append (solid_codeName type) rfl,
    words_append (solid_operand value) rfl, words_append (by decide) rfl,
    words_append (by decide) rfl, words_solid (solid_slot solid)]
  rfl

theorem words_operate
    (operation : Operation)
    (left right : Operand) :
    words (Instr.operate target operation left right).text.toList =
      wordsOf (.operate target operation left right) := by
  have spelled : (operation.text ++ " " ++ operation.operandType.codeName ++ " " ++ left.text ++
      ", " ++ right.text).toList =
        operation.text.toList ++ ' ' :: (operation.operandType.codeName.toList ++ ' ' ::
          (left.text.toList ++ ',' :: ([] ++ ' ' :: right.text.toList))) := by
    simp
  change words (Instr.define target _).toList = _
  rw [words_define, spelled, words_append_words _ _ rfl, words_append (solid_codeName _) rfl,
    words_append (solid_operand left) rfl, words_append (by decide) rfl,
    words_solid (solid_operand right)]
  rfl

theorem words_fneg
    (value : Operand) :
    words (Instr.fneg target value).text.toList = wordsOf (.fneg target value) := by
  have spelled : ("fneg double " ++ value.text).toList =
      "fneg".toList ++ ' ' :: ("double".toList ++ ' ' :: value.text.toList) := by
    simp
  change words (Instr.define target _).toList = _
  rw [words_define, spelled, words_append (by decide) rfl, words_append (by decide) rfl,
    words_solid (solid_operand value)]
  rfl

theorem words_convert
    (conversion : Conversion)
    (value : Operand) :
    words (Instr.convert target conversion value).text.toList =
      wordsOf (.convert target conversion value) := by
  have spelled : (conversion.text ++ " " ++ conversion.source.codeName ++ " " ++ value.text ++
      " to " ++ conversion.result.codeName).toList =
        conversion.text.toList ++ ' ' :: (conversion.source.codeName.toList ++ ' ' ::
          (value.text.toList ++ ' ' :: ("to".toList ++ ' ' ::
            conversion.result.codeName.toList))) := by
    simp
  have solid : Solid conversion.text.toList := by cases conversion <;> decide
  change words (Instr.define target _).toList = _
  rw [words_define, spelled, words_append solid rfl, words_append (solid_codeName _) rfl,
    words_append (solid_operand value) rfl, words_append (by decide) rfl,
    words_solid (solid_codeName _)]
  rfl

theorem words_phi
    (first second : Operand)
    (firstFrom secondFrom : Label) :
    words (Instr.phi target first firstFrom second secondFrom).text.toList =
      wordsOf (.phi target first firstFrom second secondFrom) := by
  have spelled : ("phi i1 [ " ++ first.text ++ ", %" ++ firstFrom.text ++ " ], [ " ++
      second.text ++ ", %" ++ secondFrom.text ++ " ]").toList =
        "phi".toList ++ ' ' :: ("i1".toList ++ ' ' :: (['['] ++ ' ' :: (first.text.toList ++ ',' ::
          ([] ++ ' ' :: (labelWord firstFrom ++ ' ' :: ([']'] ++ ',' :: ([] ++ ' ' :: (['['] ++
            ' ' :: (second.text.toList ++ ',' :: ([] ++ ' ' :: (labelWord secondFrom ++ ' ' ::
              [']']))))))))))) := by
    simp [labelWord]
  change words (Instr.define target _).toList = _
  rw [words_define, spelled, words_append (by decide) rfl, words_append (by decide) rfl,
    words_append (by decide) rfl, words_append (solid_operand first) rfl,
    words_append (by decide) rfl, words_append (solid_labelWord firstFrom) rfl,
    words_append (by decide) rfl, words_append (by decide) rfl, words_append (by decide) rfl,
    words_append (solid_operand second) rfl, words_append (by decide) rfl,
    words_append (solid_labelWord secondFrom) rfl, words_solid (by decide)]
  rfl

theorem words_select
    (condition : Operand)
    (yes no : Template) :
    words (Instr.select target condition yes no).text.toList =
      wordsOf (.select target condition yes no) := by
  have spelled : ("select i1 " ++ condition.text ++ ", ptr @" ++ yes.name ++ ", ptr @" ++
      no.name).toList =
        "select".toList ++ ' ' :: ("i1".toList ++ ' ' :: (condition.text.toList ++ ',' :: ([] ++
          ' ' :: ("ptr".toList ++ ' ' :: (templateWord yes ++ ',' :: ([] ++ ' ' ::
            ("ptr".toList ++ ' ' :: templateWord no))))))) := by
    simp [templateWord]
  change words (Instr.define target _).toList = _
  rw [words_define, spelled, words_append (by decide) rfl, words_append (by decide) rfl,
    words_append (solid_operand condition) rfl, words_append (by decide) rfl,
    words_append (by decide) rfl, words_append (solid_templateWord yes) rfl,
    words_append (by decide) rfl, words_append (by decide) rfl,
    words_solid (solid_templateWord no)]
  rfl

/-- The words of a call of the print routine. -/
theorem words_callPrint
    (arguments : String) :
    words (Instr.callPrint arguments).toList =
      callWords "@printf(ptr" ++ words (arguments ++ ")").toList := by
  rw [callPrint_eq, words_call (by decide)]
  rfl

theorem words_print
    (template : Template)
    (value : Operand) :
    words (Instr.print template type value).text.toList = wordsOf (.print template type value) := by
  have spelled : ("@" ++ template.name ++ ", " ++ type.codeName ++ " " ++ value.text ++
      ")").toList =
        templateWord template ++ ',' :: ([] ++ ' ' :: (type.codeName.toList ++ ' ' ::
          (value.text.toList ++ [')']))) := by
    simp [templateWord]
  change words (Instr.callPrint _).toList = _
  rw [words_callPrint, spelled, words_append (solid_templateWord template) rfl,
    words_append (by decide) rfl, words_append (solid_codeName type) rfl,
    words_solid ((solid_operand value).append (by decide))]
  rfl

theorem words_printSelected
    (format : Register) :
    words (Instr.printSelected format).text.toList = wordsOf (.printSelected format) := by
  change words (Instr.callPrint _).toList = _
  rw [words_callPrint, String.toList_append,
    words_solid ((solid_register format).append (by decide))]
  rfl

theorem words_printText
    (size number : Nat) :
    words (Instr.printText size number).text.toList = wordsOf (.printText size number) := by
  have spelled : ("getelementptr inbounds (" ++ ("[" ++ size.repr ++ " x i8]") ++ ", ptr @" ++
      ("str_" ++ number.repr) ++ ", i32 0, i32 0)" ++ ")").toList =
        "getelementptr".toList ++ ' ' :: ("inbounds".toList ++ ' ' :: (("([".toList ++
          size.repr.toList) ++ ' ' :: (['x'] ++ ' ' :: ("i8]".toList ++ ',' :: ([] ++ ' ' ::
            ("ptr".toList ++ ' ' :: (("@str_".toList ++ number.repr.toList) ++ ',' ::
              " i32 0, i32 0))".toList))))))) := by
    simp
  have closing : words " i32 0, i32 0))".toList =
      [[], "i32".toList, ['0'], [], "i32".toList, "0))".toList] := by decide
  change words (Instr.callPrint ("getelementptr inbounds (" ++ ("[" ++ size.repr ++
    " x i8]") ++ ", ptr @" ++ ("str_" ++ number.repr) ++ ", i32 0, i32 0)")).toList = _
  rw [words_callPrint, spelled, words_append (by decide) rfl, words_append (by decide) rfl,
    words_append (Solid.append (by decide) (solid_repr size)) rfl, words_append (by decide) rfl,
    words_append (by decide) rfl, words_append (by decide) rfl, words_append (by decide) rfl,
    words_append (Solid.append (by decide) (solid_repr number)) rfl, closing]
  rfl

/-- The words of a call of the scan routine, whatever place it scans into. -/
theorem words_callScan
    (template : Template)
    (place : String) :
    words ("call i32 (ptr, ...) " ++ "@scanf(ptr" ++ " " ++
        ("@" ++ template.name ++ ", ptr " ++ place)).toList =
      callWords "@scanf(ptr" ++ templateWord template :: [] :: "ptr".toList ::
        words place.toList := by
  have spelled : ("@" ++ template.name ++ ", ptr " ++ place).toList =
      templateWord template ++ ',' :: ([] ++ ' ' :: ("ptr".toList ++ ' ' :: place.toList)) := by
    simp [templateWord]
  rw [words_call (by decide), spelled, words_append (solid_templateWord template) rfl,
    words_append (by decide) rfl, words_append (by decide) rfl]
  rfl

theorem words_scan
    (template : Template)
    (solid : Solid variableName.toList) :
    words (Instr.scan template variableName).text.toList =
      wordsOf (.scan template variableName) := by
  have regrouped : "@" ++ template.name ++ ", ptr " ++ Instr.slot variableName ++ ")" =
      "@" ++ template.name ++ ", ptr " ++ (Instr.slot variableName ++ ")") := String.append_assoc
  rw [scan_eq, regrouped, words_callScan, String.toList_append,
    words_solid ((solid_slot solid).append (by decide))]
  rfl

end Instructions

/-- The words of the line of an instruction are those listed. -/
theorem words_text
    (instr : Instr)
    (solid : ∀ name, instr.slotName? = some name -> Solid name.toList) :
    words instr.text.toList = wordsOf instr := by
  cases instr with
  | alloca variableName => exact words_alloca (solid variableName rfl)
  | load _ _ variableName => exact words_load (solid variableName rfl)
  | store _ value variableName => exact words_store value (solid variableName rfl)
  | operate _ operation left right => exact words_operate operation left right
  | fneg _ value => exact words_fneg value
  | convert _ conversion value => exact words_convert conversion value
  | phi _ first firstFrom second secondFrom => exact words_phi first second firstFrom secondFrom
  | select _ condition yes no => exact words_select condition yes no
  | print template _ value => exact words_print template value
  | printSelected format => exact words_printSelected format
  | printText size number => exact words_printText size number
  | scan template variableName => exact words_scan template (solid variableName rfl)
  | jump label => exact words_jump label
  | fork condition yes no => exact words_fork condition yes no
  | ret => decide

end CodeText

/-! ## Reading the operands -/

/-- The operands of an instruction, in the order in which they are spelled. -/
def Instr.operands : Instr -> List Operand
  | .store _ value _ => [value]
  | .operate _ _ left right => [left, right]
  | .fneg _ value => [value]
  | .convert _ _ value => [value]
  | .phi _ first _ second _ => [first, second]
  | .select _ condition _ _ => [condition]
  | .print _ _ value => [value]
  | .fork condition _ _ => [condition]
  | _ => []

namespace CodeText

/-- Whether a word starts as a number does. -/
def startsNumeral : List Char -> Bool
  | [] => false
  | first :: _ => first.isDigit || first = '-'

/-- The words of a line that may write numbers: the operands, and the zeros that a routine returns
and by which a constant is addressed. -/
def operandWords : Instr -> List (List Char)
  | .printText _ _ => [['0'], ['0']]
  | .ret => [['0']]
  | instr => instr.operands.map fun operand => operand.text.toList

/-- A reader of numbers passes over the words that do not start as one, and over parentheses behind
an operand. -/
structure NumeralReader {α : Type} (read? : List Char -> Option α) : Prop where
  silent : ∀ word, startsNumeral word = false -> read? word = none
  closing : ∀ operand : Operand,
    read? (operand.text.toList ++ [')']) = read? operand.text.toList
  zero : read? "0))".toList = read? ['0']

section Reading

variable {α : Type} {read? : List Char -> Option α}

theorem startsNumeral_append
    {front : List Char}
    (nonempty : front ≠ [])
    (back : List Char) :
    startsNumeral (front ++ back) = startsNumeral front := by
  cases front with
  | nil => exact absurd rfl nonempty
  | cons first rest => rfl

theorem toList_text_double
    (bits : UInt64) :
    (Operand.double bits).text.toList = ['0', 'x'] ++ Hexadecimal.fixed 16 bits.toNat := by
  rw [Operand.text, String.toList_append, String.toList_ofList, String.toList_ofList]

theorem startsNumeral_register
    (register : Register) :
    startsNumeral register.text.toList = false := by
  rw [Register.text, String.toList_append, startsNumeral_append (by decide)]
  decide

theorem startsNumeral_slot
    (name : String) :
    startsNumeral (Instr.slot name).toList = false := by
  rw [Instr.slot, String.toList_append, startsNumeral_append (by decide)]
  decide

theorem startsNumeral_codeName
    (type : ValueType) :
    startsNumeral type.codeName.toList = false := by
  cases type <;> decide

theorem startsNumeral_operation
    (operation : Operation) :
    ∀ word ∈ words operation.text.toList, startsNumeral word = false := by
  cases operation with
  | calculate calculation type => cases calculation <;> cases type <;> decide
  | calculateReal calculation => cases calculation <;> decide
  | compare comparison type => cases comparison <;> cases type <;> decide
  | compareReal comparison => cases comparison <;> decide

namespace NumeralReader

variable (reader : NumeralReader read?)
include reader

theorem skip
    {word : List Char}
    (other : startsNumeral word = false)
    (rest : List (List Char)) :
    (word :: rest).filterMap read? = rest.filterMap read? :=
  List.filterMap_cons_none (reader.silent word other)

theorem skip_append
    {front : List (List Char)}
    (others : ∀ word ∈ front, startsNumeral word = false)
    (rest : List (List Char)) :
    (front ++ rest).filterMap read? = rest.filterMap read? := by
  rw [List.filterMap_append, List.filterMap_eq_nil_iff.2, List.nil_append]
  exact fun word listed => reader.silent word (others word listed)

theorem skip_last
    {word : List Char}
    (other : startsNumeral word = false) :
    [word].filterMap read? = [] :=
  reader.skip other []

/-- The words before the arguments of a call write no numbers. -/
theorem skip_call
    {routine : String}
    (other : startsNumeral routine.toList = false)
    (rest : List (List Char)) :
    (callWords routine ++ rest).filterMap read? = rest.filterMap read? := by
  simp only [callWords, List.cons_append, List.nil_append]
  rw [reader.skip (by decide), reader.skip (by decide), reader.skip (by decide),
    reader.skip (by decide), reader.skip (by decide), reader.skip other]

omit reader in
theorem take
    (word : List Char)
    (rest : List (List Char)) :
    (word :: rest).filterMap read? = (read? word).toList ++ rest.filterMap read? := by
  rw [List.filterMap_cons]
  cases read? word <;> rfl

/-- A reader of numbers reads the operands of an instruction. -/
theorem filterMap_wordsOf
    (instr : Instr) :
    (wordsOf instr).filterMap read? =
      (operandWords instr).flatMap fun word => (read? word).toList := by
  cases instr with
  | alloca =>
      rw [wordsOf, reader.skip (startsNumeral_slot _), reader.skip (by decide),
        reader.skip (by decide), reader.skip_last (startsNumeral_codeName _)]
      rfl
  | load =>
      rw [wordsOf, reader.skip (startsNumeral_register _), reader.skip (by decide),
        reader.skip (by decide), reader.skip (startsNumeral_codeName _), reader.skip (by decide),
        reader.skip (by decide), reader.skip_last (startsNumeral_slot _)]
      rfl
  | store =>
      rw [wordsOf, reader.skip (by decide), reader.skip (startsNumeral_codeName _), take,
        reader.skip (by decide), reader.skip (by decide), reader.skip_last (startsNumeral_slot _)]
      rfl
  | operate _ operation =>
      rw [wordsOf, List.cons_append, List.cons_append, reader.skip (startsNumeral_register _),
        reader.skip (by decide), reader.skip_append (startsNumeral_operation operation),
        reader.skip (startsNumeral_codeName _), take, reader.skip (by decide), take]
      rfl
  | fneg =>
      rw [wordsOf, reader.skip (startsNumeral_register _), reader.skip (by decide),
        reader.skip (by decide), reader.skip (by decide), take]
      rfl
  | convert _ conversion =>
      have other : startsNumeral conversion.text.toList = false := by cases conversion <;> decide
      rw [wordsOf, reader.skip (startsNumeral_register _), reader.skip (by decide),
        reader.skip other, reader.skip (startsNumeral_codeName _), take, reader.skip (by decide),
        reader.skip_last (startsNumeral_codeName _)]
      rfl
  | phi =>
      rw [wordsOf, reader.skip (startsNumeral_register _), reader.skip (by decide),
        reader.skip (by decide), reader.skip (by decide), reader.skip (by decide), take,
        reader.skip (by decide), reader.skip rfl, reader.skip (by decide),
        reader.skip (by decide), reader.skip (by decide), take, reader.skip (by decide),
        reader.skip rfl, reader.skip_last (by decide)]
      rfl
  | select =>
      rw [wordsOf, reader.skip (startsNumeral_register _), reader.skip (by decide),
        reader.skip (by decide), reader.skip (by decide), take, reader.skip (by decide),
        reader.skip (by decide), reader.skip rfl, reader.skip (by decide), reader.skip (by decide),
        reader.skip_last rfl]
      rfl
  | print =>
      rw [wordsOf, reader.skip_call (by decide), reader.skip rfl, reader.skip (by decide),
        reader.skip (startsNumeral_codeName _), take, reader.closing]
      rfl
  | printSelected format =>
      have other : startsNumeral (format.text.toList ++ [')']) = false := by
        rw [startsNumeral_append, startsNumeral_register]
        simp [Register.text]
      rw [wordsOf, reader.skip_call (by decide), reader.skip_last other]
      rfl
  | printText =>
      rw [wordsOf, reader.skip_call (by decide), reader.skip (by decide), reader.skip (by decide),
        reader.skip rfl, reader.skip (by decide), reader.skip (by decide), reader.skip (by decide),
        reader.skip (by decide), reader.skip rfl, reader.skip (by decide), reader.skip (by decide),
        take, reader.skip (by decide), reader.skip (by decide), take, reader.zero]
      rfl
  | scan _ variableName =>
      have other : startsNumeral ((Instr.slot variableName).toList ++ [')']) = false := by
        rw [startsNumeral_append, startsNumeral_slot]
        simp [Instr.slot]
      rw [wordsOf, reader.skip_call (by decide), reader.skip rfl, reader.skip (by decide),
        reader.skip (by decide), reader.skip_last other]
      rfl
  | jump =>
      rw [wordsOf, reader.skip (by decide), reader.skip (by decide), reader.skip_last rfl]
      rfl
  | fork =>
      rw [wordsOf, reader.skip (by decide), reader.skip (by decide), take, reader.skip (by decide),
        reader.skip (by decide), reader.skip rfl, reader.skip (by decide), reader.skip (by decide),
        reader.skip_last rfl]
      rfl
  | ret =>
      rw [wordsOf, reader.skip (by decide), reader.skip (by decide), take]
      rfl

end NumeralReader

end Reading

/-- What is read off the words of a line, if it is an instruction. -/
def readLine {α : Type} (read? : List Char -> Option α) (line : String) : List α :=
  ((instruction? line).getD []).filterMap read?

variable {α : Type} (read? : List Char -> Option α)

/-- What is read off a line of a routine. -/
def readItem : Item -> List α
  | .label _ => []
  | .instr instruction => (wordsOf instruction).filterMap read?

theorem readLine_line
    (item : Item)
    (solid : ∀ name, item.slotName? = some name -> Solid name.toList) :
    readLine read? item.line = readItem read? item := by
  cases item with
  | label opened =>
      rw [readLine, instruction?_label]
      rfl
  | instr instruction =>
      rw [readLine, instruction?_line, Option.getD_some, words_text instruction solid]
      rfl

end CodeText

open CodeText

/-- What is read off the lines of a module is what is read off the lines of its routine. -/
theorem CodeModule.flatMap_readLine
    {α : Type}
    (read? : List Char -> Option α)
    (code : CodeModule)
    (solid : ∀ item ∈ code.items, ∀ name, item.slotName? = some name -> Solid name.toList) :
    code.lines.flatMap (readLine read?) = code.items.flatMap (readItem read?) := by
  obtain ⟨front, back, lines_eq, outside⟩ := code.exists_lines_eq
  rw [List.forall_mem_append] at outside
  have silent {lines : List String} (others : ∀ line ∈ lines, instruction? line = none) :
      lines.flatMap (readLine read?) = [] := by
    refine List.flatMap_eq_nil_iff.2 fun line listed => ?_
    rw [readLine, others line listed]
    rfl
  rw [lines_eq, List.flatMap_append, List.flatMap_append, silent outside.1, silent outside.2,
    List.flatMap_map, List.nil_append, List.append_nil]
  exact List.flatMap_congr fun item listed => readLine_line read? item (solid item listed)

end MiniLang
