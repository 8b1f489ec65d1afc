import MiniLang.Proofs.Code.IntegerWords
import MiniLang.Proofs.Code.RealWords

/-!
# Reading the text of instructions back

A text is read here as an instruction: its words name what the instruction does, its types and its
operands, and tables of their own say what each word stands for.  Nothing is taken over from the way
instructions are spelled, so reading back what was spelled ties the two together: a text is that of
one instruction only, whatever its variables are called.

The name of a variable may hold anything.  A line with a slot is therefore parted at the first mark
of a slot: the words are those up to the mark, and the name is cut out of what stands behind it.
-/

namespace MiniLang

/-! ## Words -/

namespace CodeText

/-- What a text holds behind a mark at its start. -/
def behind? (mark text : String) : Option String :=
  (text.toList.dropPrefix? mark.toList).map String.ofList

/-- What a text holds before a mark at its end. -/
def before? (mark text : String) : Option String :=
  (text.toList.dropSuffix? mark.toList).map String.ofList

/-- The number that a word writes in decimal digits behind a mark. -/
def numberBehind? (mark word : String) : Option Nat :=
  (behind? mark word).bind fun digits => decimal? digits.toList

/-- The words of a text. -/
def spelling (text : List Char) : List String :=
  (words text).map String.ofList

@[simp] theorem behind?_append
    (mark rest : String) :
    behind? mark (mark ++ rest) = some rest := by
  rw [behind?, String.toList_append, List.dropPrefix?_append_of_beq _ BEq.rfl, Option.map_some,
    String.ofList_toList]

@[simp] theorem before?_append
    (rest mark : String) :
    before? mark (rest ++ mark) = some rest := by
  have dropped : (rest ++ mark).toList.dropSuffix? mark.toList = some rest.toList :=
    List.dropSuffix?_eq_some_iff.2 ⟨mark.toList, String.toList_append, BEq.rfl⟩
  rw [before?, dropped, Option.map_some, String.ofList_toList]

theorem behind?_eq_none
    {mark text : String}
    (other : ¬mark.toList <+: text.toList) :
    behind? mark text = none := by
  rw [behind?, Option.map_eq_none_iff, Option.eq_none_iff_forall_ne_some]
  intro rest dropped
  obtain ⟨front, spelled, same⟩ := List.dropPrefix?_eq_some_iff.1 dropped
  rw [beq_iff_eq] at same
  exact other ⟨rest, by rw [spelled, same]⟩

@[simp] theorem numberBehind?_append
    (mark : String)
    (number : Nat) :
    numberBehind? mark (mark ++ number.repr) = some number := by
  rw [numberBehind?, behind?_append, Option.bind_some, decimal?_repr]

theorem ofList_labelWord
    (label : Label) :
    String.ofList (labelWord label) = "%" ++ label.text := by
  rw [← String.toList_inj, String.toList_ofList, String.toList_append]
  rfl

theorem ofList_templateWord
    (template : Template) :
    String.ofList (templateWord template) = "@" ++ template.name := by
  rw [← String.toList_inj, String.toList_ofList, String.toList_append]
  rfl

/-- What is behind a quiet text is quiet if both are together. -/
theorem quiet_right
    {front back : List Char}
    (whole_quiet : quiet (front ++ back) = true) :
    quiet back = true := by
  induction front with
  | nil => exact whole_quiet
  | cons character rest inductionHypothesis =>
      rw [List.cons_append, quiet, Bool.and_eq_true] at whole_quiet
      exact inductionHypothesis whole_quiet.2

/-- A quiet text has no mark of a slot. -/
theorem dropInfix?_eq_none
    {text : String}
    (text_quiet : Quiet text) :
    text.toList.dropInfix? slotMark = none := by
  rw [Option.eq_none_iff_forall_ne_some]
  rintro ⟨front, behind⟩ found
  obtain ⟨⟨mark, spelled, same⟩, -⟩ := List.dropInfix?_eq_some_iff.1 found
  rw [beq_iff_eq.1 same, List.append_assoc] at spelled
  rw [Quiet, spelled] at text_quiet
  cases quiet_right text_quiet

/-- The first mark of a slot is found behind a quiet text. -/
theorem dropInfix?_slotMark
    {front : List Char}
    (front_quiet : quiet front = true)
    (behind : List Char) :
    (front ++ slotMark ++ behind).dropInfix? slotMark = some (front, behind) := by
  refine List.dropInfix?_eq_some_iff.2 ⟨⟨slotMark, rfl, BEq.rfl⟩, ?_⟩
  intro earlier mark later split same
  rw [beq_iff_eq.1 same, List.append_assoc, List.append_assoc] at split
  rcases List.append_eq_append_iff.1 split with ⟨more, rfl, -⟩ | ⟨more, rfl, marked⟩
  · simp
  · -- A mark that stands earlier would start inside the quiet text.
    cases more with
    | nil => simp
    | cons character rest =>
        exact absurd ⟨later, marked⟩ (not_slotMark_isPrefix_append (quiet_right front_quiet) _)

end CodeText

open CodeText

/-! ## What the words stand for -/

/-- The type that a word names. -/
def ValueType.ofCodeName? : String -> Option ValueType
  | "i32" => some .int
  | "double" => some .double
  | "i1" => some .bool
  | _ => none

@[simp] theorem ValueType.ofCodeName?_codeName
    (type : ValueType) :
    ofCodeName? type.codeName = some type := by
  cases type <;> rfl

/-- The register that a word names. -/
def Register.ofText? (word : String) : Option Register :=
  numberBehind? "%r" word

@[simp] theorem Register.ofText?_text
    (register : Register) :
    ofText? register.text = some register :=
  numberBehind?_append "%r" register

theorem Register.ofText?_eq_none
    {word : String}
    (unmarked : '%' ∉ word.toList) :
    ofText? word = none := by
  have other : ¬"%r".toList <+: word.toList := fun marked => unmarked (marked.subset (by decide))
  rw [ofText?, numberBehind?, behind?_eq_none other]
  rfl

/-- The label that a word names. -/
def Label.ofText? (word : String) : Option Label :=
  (numberBehind? "L" word).map .numbered <|> if word = "entry" then some .entry else none

@[simp] theorem Label.ofText?_text
    (label : Label) :
    ofText? label.text = some label := by
  cases label with
  | entry => rfl
  | numbered number =>
      rw [Label.text, ofText?, numberBehind?_append]
      rfl

/-- The format whose constant has a name. -/
def Template.ofName? : String -> Option Template
  | "fmt_int_print" => some .printInt
  | "fmt_hex_print" => some .printHex
  | "fmt_double_print" => some .printDouble
  | "fmt_true_print" => some .printTrue
  | "fmt_false_print" => some .printFalse
  | "fmt_int_scan" => some .scanInt
  | "fmt_hex_scan" => some .scanHex
  | "fmt_double_scan" => some .scanDouble
  | _ => none

@[simp] theorem Template.ofName?_name
    (template : Template) :
    ofName? template.name = some template := by
  cases template <;> rfl

/-- The calculation on integers and truth values that a word names. -/
def Calculation.ofText? : String -> Option Calculation
  | "add" => some .add
  | "sub" => some .sub
  | "mul" => some .mul
  | "sdiv" => some .sdiv
  | "and" => some .and
  | "or" => some .or
  | "xor" => some .xor
  | _ => none

/-- The calculation on reals that a word names. -/
def RealCalculation.ofText? : String -> Option RealCalculation
  | "fadd" => some .fadd
  | "fsub" => some .fsub
  | "fmul" => some .fmul
  | "fdiv" => some .fdiv
  | _ => none

/-- The comparison of signed integers that a word names. -/
def Comparison.ofSigned? : String -> Option Comparison
  | "eq" => some .eq
  | "ne" => some .ne
  | "sgt" => some .gt
  | "sge" => some .ge
  | "slt" => some .lt
  | "sle" => some .le
  | _ => none

/-- The comparison of reals that a word names, which fails if one of them is not a number. -/
def Comparison.ofOrdered? : String -> Option Comparison
  | "oeq" => some .eq
  | "one" => some .ne
  | "ogt" => some .gt
  | "oge" => some .ge
  | "olt" => some .lt
  | "ole" => some .le
  | _ => none

/-- The calculation that a word names on operands of a type. -/
def Operation.ofText? (verb type : String) : Option Operation :=
  match RealCalculation.ofText? verb with
  | some calculation => if type = "double" then some (.calculateReal calculation) else none
  | none => .calculate <$> Calculation.ofText? verb <*> ValueType.ofCodeName? type

@[simp] theorem Operation.ofText?_calculate
    (calculation : Calculation)
    (type : ValueType) :
    ofText? calculation.text type.codeName = some (.calculate calculation type) := by
  cases calculation <;> cases type <;> rfl

@[simp] theorem Operation.ofText?_calculateReal
    (calculation : RealCalculation) :
    ofText? calculation.text "double" = some (.calculateReal calculation) := by
  cases calculation <;> rfl

/-- A comparison of integers is spelled with a word that names it. -/
theorem Comparison.exists_signed
    (comparison : Comparison) :
    ∃ word, spelling comparison.integerText.toList = ["icmp", word] ∧
      ofSigned? word = some comparison := by
  cases comparison <;> exact ⟨_, rfl, rfl⟩

/-- A comparison of reals is spelled with a word that names it. -/
theorem Comparison.exists_ordered
    (comparison : Comparison) :
    ∃ word, spelling comparison.orderedText.toList = ["fcmp", word] ∧
      ofOrdered? word = some comparison := by
  cases comparison <;> exact ⟨_, rfl, rfl⟩

/-- The conversion that a word names between two types. -/
def Conversion.ofText? : String -> String -> String -> Option Conversion
  | "sitofp", "i32", "double" => some .sitofp
  | "fptosi", "double", "i32" => some .fptosi
  | "zext", "i1", "i32" => some .zext
  | _, _, _ => none

@[simp] theorem Conversion.ofText?_text
    (conversion : Conversion) :
    ofText? conversion.text conversion.source.codeName conversion.result.codeName =
      some conversion := by
  cases conversion <;> rfl

/-- The integer that a word writes. -/
def CodeText.int32? (word : String) : Option Int32 :=
  (number? word.toList).bind fun value =>
    if (Int32.ofInt value).toInt = value then some (Int32.ofInt value) else none

/-- The operand that a word writes: a register, the bit pattern of a real, an integer or a truth
value. -/
def Operand.ofText? (word : String) : Option Operand :=
  (Register.ofText? word).map .register <|> (pattern? word.toList).map .double <|>
    (int32? word).map .int <|>
      if word = "true" then some (.bool true)
      else if word = "false" then some (.bool false) else none

@[simp] theorem Operand.ofText?_text
    (operand : Operand) :
    ofText? operand.text = some operand := by
  cases operand with
  | register number =>
      rw [ofText?, Operand.text, Register.ofText?_text]
      rfl
  | int value =>
      have unmarked : '%' ∉ (Operand.int value).text.toList := by
        intro listed
        rcases isDigit_or_minus_of_mem_repr listed with digit | minus
        · exact absurd digit (by decide)
        · exact absurd minus (by decide)
      have no_pattern := pattern?_operand (.int value) (.inl rfl)
      have written := number?_repr List.takeWhile_nil value.toInt
      rw [List.append_nil] at no_pattern written
      rw [ofText?, Register.ofText?_eq_none unmarked, Option.toList_eq_nil_iff.1 no_pattern,
        int32?, Operand.text, written, Option.bind_some, Int32.ofInt_toInt, if_pos rfl]
      rfl
  | double bits =>
      have unmarked : '%' ∉ (Operand.double bits).text.toList := by
        rw [toList_text_double, List.mem_append, not_or]
        exact ⟨by decide, not_mem_fixed 16 bits.toNat⟩
      have written := sixteenDigits?_fixed bits (.inl rfl)
      rw [List.append_nil] at written
      rw [ofText?, Register.ofText?_eq_none unmarked, toList_text_double, pattern?_marked, written]
      rfl
  | bool value => cases value <;> rfl

/-! ## Instructions -/

namespace Instr

/-- The label of the block that a word names. -/
def labelOf? (word : String) : Option Label :=
  (behind? "%" word).bind Label.ofText?

/-- The format that a word names. -/
def templateOf? (word : String) : Option Template :=
  (behind? "@" word).bind Template.ofName?

/-- The conversion or calculation that defines a register, by the words behind the equals sign. -/
def ofCalculation? (target : Register) : List String -> Option Instr
  | [verb, type, value, "to", result] =>
      .convert target <$> Conversion.ofText? verb type result <*> Operand.ofText? value
  | [verb, type, left, "", right] =>
      .operate target <$> Operation.ofText? verb type <*> Operand.ofText? left <*>
        Operand.ofText? right
  | _ => none

/-- The instruction that defines a register, by the words behind the equals sign and by what stands
behind the mark of a slot. -/
def ofDefinition? (behind : String) (target : Register) : List String -> Option Instr
  | ["load", type, "", "ptr", "%var_"] => (.load target · behind) <$> ValueType.ofCodeName? type
  | ["fneg", "double", value] => .fneg target <$> Operand.ofText? value
  | ["phi", "i1", "[", first, "", firstFrom, "]", "", "[", second, "", secondFrom, "]"] =>
      .phi target <$> Operand.ofText? first <*> labelOf? firstFrom <*> Operand.ofText? second <*>
        labelOf? secondFrom
  | ["select", "i1", condition, "", "ptr", yes, "", "ptr", no] =>
      .select target <$> Operand.ofText? condition <*> templateOf? yes <*> templateOf? no
  | ["icmp", predicate, type, left, "", right] =>
      .operate target <$>
        (.compare <$> Comparison.ofSigned? predicate <*> ValueType.ofCodeName? type) <*>
        Operand.ofText? left <*> Operand.ofText? right
  | ["fcmp", predicate, "double", left, "", right] =>
      .operate target <$> (.compareReal <$> Comparison.ofOrdered? predicate) <*>
        Operand.ofText? left <*> Operand.ofText? right
  | words => ofCalculation? target words

/-- The call of a routine, by the words from its name on and by what stands behind the mark of a
slot. -/
def ofCall? (behind : String) : List String -> Option Instr
  | ["@printf(ptr", format] => .printSelected <$> (before? ")" format).bind Register.ofText?
  | ["@printf(ptr", template, "", type, value] =>
      .print <$> templateOf? template <*> ValueType.ofCodeName? type <*>
        (before? ")" value).bind Operand.ofText?
  | ["@printf(ptr", "getelementptr", "inbounds", size, "x", "i8]", "", "ptr", constant, "", "i32",
      "0", "", "i32", "0))"] =>
      .printText <$> numberBehind? "([" size <*> numberBehind? "@str_" constant
  | ["@scanf(ptr", template, "", "ptr", "%var_"] =>
      .scan <$> templateOf? template <*> before? ")" behind
  | _ => none

/-- The reservation of a slot, by what stands behind its mark: the name, and at the end a word that
names the type. -/
def ofReservation? (behind : String) : Option Instr :=
  (spelling behind.toList).getLast?.bind fun word =>
    .alloca <$> before? (" = alloca " ++ word) behind <*> ValueType.ofCodeName? word

/-- The instruction that defines no register, by its words and by what stands behind the mark of a
slot. -/
def ofStatement? (behind : String) : List String -> Option Instr
  | ["%var_"] => ofReservation? behind
  | ["store", type, value, "", "ptr", "%var_"] =>
      (.store · · behind) <$> ValueType.ofCodeName? type <*> Operand.ofText? value
  | "call" :: "i32" :: "(ptr" :: "" :: "...)" :: call => ofCall? behind call
  | ["br", "label", target] => .jump <$> labelOf? target
  | ["br", "i1", condition, "", "label", yes, "", "label", no] =>
      .fork <$> Operand.ofText? condition <*> labelOf? yes <*> labelOf? no
  | ["ret", "i32", "0"] => some .ret
  | _ => none

/-- The instruction that words and what stands behind the mark of a slot spell. -/
def ofWords? (behind : String) (words : List String) : Option Instr :=
  match words.head?.bind Register.ofText?, words.tail with
  | some target, "=" :: right => ofDefinition? behind target right
  | some _, _ => none
  | none, _ => ofStatement? behind words

/-- The instruction that a text spells. -/
def ofText? (text : String) : Option Instr :=
  match text.toList.dropInfix? slotMark with
  | some (front, behind) => ofWords? (String.ofList behind) (spelling (front ++ slotMark))
  | none => ofWords? "" (spelling text.toList)

@[simp] theorem labelOf?_append
    (label : Label) :
    labelOf? ("%" ++ label.text) = some label := by
  rw [labelOf?, behind?_append, Option.bind_some, Label.ofText?_text]

@[simp] theorem templateOf?_append
    (template : Template) :
    templateOf? ("@" ++ template.name) = some template := by
  rw [templateOf?, behind?_append, Option.bind_some, Template.ofName?_name]

theorem ofWords?_define
    (behind : String)
    (target : Register)
    (right : List String) :
    ofWords? behind (target.text :: "=" :: right) = ofDefinition? behind target right := by
  rw [ofWords?, List.head?_cons, Option.bind_some, Register.ofText?_text]
  rfl

/-- An instruction that names no slot is read off its words. -/
theorem ofText?_of_silent
    {instr : Instr}
    (silent : instr.slotName? = none) :
    ofText? instr.text = ofWords? "" ((wordsOf instr).map String.ofList) := by
  have solid : ∀ name, instr.slotName? = some name -> Solid name.toList := by
    intro name named
    cases silent.symm.trans named
  rw [ofText?, dropInfix?_eq_none (quiet_text silent), spelling, words_text instr solid]

section Definitions

variable (target : Register)

/-- An instruction that defines a register and names no slot is read off the words behind the equals
sign. -/
theorem ofText?_define
    {target : Register}
    {instr : Instr}
    {right : List (List Char)}
    (silent : instr.slotName? = none)
    (spelled : wordsOf instr = target.text.toList :: ['='] :: right) :
    ofText? instr.text = ofDefinition? "" target (right.map String.ofList) := by
  rw [ofText?_of_silent silent, spelled, List.map_cons, List.map_cons, String.ofList_toList]
  exact ofWords?_define "" target _

/-- A calculation is read off the word that names it, if none of the other rows takes this word. -/
theorem ofDefinition?_calculation
    {target : Register}
    {operation : Operation}
    {verb type : String}
    {left right : Operand}
    (row : ofDefinition? "" target [verb, type, left.text, "", right.text] =
      ofCalculation? target [verb, type, left.text, "", right.text])
    (named : Operation.ofText? verb type = some operation) :
    ofDefinition? "" target [verb, type, left.text, "", right.text] =
      some (.operate target operation left right) := by
  rw [row]
  change Instr.operate target <$> Operation.ofText? verb type <*> Operand.ofText? left.text <*>
    Operand.ofText? right.text = _
  rw [named, left.ofText?_text, right.ofText?_text]
  rfl

theorem ofText?_operate
    (operation : Operation)
    (left right : Operand) :
    ofText? (Instr.operate target operation left right).text =
      some (.operate target operation left right) := by
  have words_eq : wordsOf (.operate target operation left right) =
      target.text.toList :: ['='] :: (words operation.text.toList ++
        [operation.operandType.codeName.toList, left.text.toList, [], right.text.toList]) := rfl
  rw [ofText?_define rfl words_eq]
  simp only [List.map_cons, List.map_append, List.map_nil, String.ofList_toList]
  change ofDefinition? "" target (spelling operation.text.toList ++ _) = _
  cases operation with
  | calculate calculation type =>
      have alone : spelling calculation.text.toList = [calculation.text] := by
        cases calculation <;> rfl
      rw [Operation.text, alone]
      exact ofDefinition?_calculation (by cases calculation <;> rfl)
        (Operation.ofText?_calculate calculation type)
  | calculateReal calculation =>
      have alone : spelling calculation.text.toList = [calculation.text] := by
        cases calculation <;> rfl
      rw [Operation.text, alone]
      exact ofDefinition?_calculation (by cases calculation <;> rfl)
        (Operation.ofText?_calculateReal calculation)
  | compare comparison type =>
      obtain ⟨word, spelled, named⟩ := comparison.exists_signed
      rw [Operation.text, spelled]
      change Instr.operate target <$> (Operation.compare <$> Comparison.ofSigned? word <*>
        ValueType.ofCodeName? type.codeName) <*> Operand.ofText? left.text <*>
        Operand.ofText? right.text = _
      rw [named, type.ofCodeName?_codeName, left.ofText?_text, right.ofText?_text]
      rfl
  | compareReal comparison =>
      obtain ⟨word, spelled, named⟩ := comparison.exists_ordered
      rw [Operation.text, spelled]
      change Instr.operate target <$> (Operation.compareReal <$> Comparison.ofOrdered? word) <*>
        Operand.ofText? left.text <*> Operand.ofText? right.text = _
      rw [named, left.ofText?_text, right.ofText?_text]
      rfl

theorem ofText?_fneg
    (value : Operand) :
    ofText? (Instr.fneg target value).text = some (.fneg target value) := by
  rw [ofText?_define rfl rfl]
  simp only [List.map_cons, List.map_nil, String.ofList_toList]
  change Instr.fneg target <$> Operand.ofText? value.text = _
  rw [value.ofText?_text]
  rfl

theorem ofText?_convert
    (conversion : Conversion)
    (value : Operand) :
    ofText? (Instr.convert target conversion value).text =
      some (.convert target conversion value) := by
  have row : ofDefinition? "" target [conversion.text, conversion.source.codeName, value.text, "to",
      conversion.result.codeName] =
        .convert target <$> Conversion.ofText? conversion.text conversion.source.codeName
          conversion.result.codeName <*> Operand.ofText? value.text := by
    cases conversion <;> rfl
  rw [ofText?_define rfl rfl]
  simp only [List.map_cons, List.map_nil, String.ofList_toList]
  refine row.trans ?_
  rw [conversion.ofText?_text, value.ofText?_text]
  rfl

theorem ofText?_phi
    (first second : Operand)
    (firstFrom secondFrom : Label) :
    ofText? (Instr.phi target first firstFrom second secondFrom).text =
      some (.phi target first firstFrom second secondFrom) := by
  rw [ofText?_define rfl rfl]
  simp only [List.map_cons, List.map_nil, String.ofList_toList, ofList_labelWord]
  change Instr.phi target <$> Operand.ofText? first.text <*> labelOf? ("%" ++ firstFrom.text) <*>
    Operand.ofText? second.text <*> labelOf? ("%" ++ secondFrom.text) = _
  rw [first.ofText?_text, labelOf?_append, second.ofText?_text, labelOf?_append]
  rfl

theorem ofText?_select
    (condition : Operand)
    (yes no : Template) :
    ofText? (Instr.select target condition yes no).text =
      some (.select target condition yes no) := by
  rw [ofText?_define rfl rfl]
  simp only [List.map_cons, List.map_nil, String.ofList_toList, ofList_templateWord]
  change Instr.select target <$> Operand.ofText? condition.text <*>
    templateOf? ("@" ++ yes.name) <*> templateOf? ("@" ++ no.name) = _
  rw [condition.ofText?_text, templateOf?_append, templateOf?_append]
  rfl

end Definitions

section Statements

theorem ofText?_print
    (template : Template)
    (type : ValueType)
    (value : Operand) :
    ofText? (Instr.print template type value).text = some (.print template type value) := by
  rw [ofText?_of_silent rfl]
  simp only [wordsOf, callWords, List.cons_append, List.nil_append, List.map_cons, List.map_nil,
    String.ofList_toList, String.ofList_append, ofList_templateWord]
  change Instr.print <$> templateOf? ("@" ++ template.name) <*>
    ValueType.ofCodeName? type.codeName <*>
    (before? ")" (value.text ++ ")")).bind Operand.ofText? = _
  rw [templateOf?_append, type.ofCodeName?_codeName, before?_append, Option.bind_some,
    value.ofText?_text]
  rfl

theorem ofText?_printSelected
    (format : Register) :
    ofText? (Instr.printSelected format).text = some (.printSelected format) := by
  rw [ofText?_of_silent rfl]
  simp only [wordsOf, callWords, List.cons_append, List.nil_append, List.map_cons, List.map_nil,
    String.ofList_toList, String.ofList_append]
  change Instr.printSelected <$> (before? ")" (format.text ++ ")")).bind Register.ofText? = _
  rw [before?_append, Option.bind_some, Register.ofText?_text]
  rfl

theorem ofText?_printText
    (size number : Nat) :
    ofText? (Instr.printText size number).text = some (.printText size number) := by
  rw [ofText?_of_silent rfl]
  simp only [wordsOf, callWords, List.cons_append, List.nil_append, List.map_cons, List.map_nil,
    String.ofList_toList, String.ofList_append]
  change Instr.printText <$> numberBehind? "([" ("([" ++ size.repr) <*>
    numberBehind? "@str_" ("@str_" ++ number.repr) = _
  rw [numberBehind?_append, numberBehind?_append]
  rfl

theorem ofText?_jump
    (target : Label) :
    ofText? (Instr.jump target).text = some (.jump target) := by
  rw [ofText?_of_silent rfl]
  simp only [wordsOf, List.map_cons, List.map_nil, String.ofList_toList, ofList_labelWord]
  change Instr.jump <$> labelOf? ("%" ++ target.text) = _
  rw [labelOf?_append]
  rfl

theorem ofText?_fork
    (condition : Operand)
    (yes no : Label) :
    ofText? (Instr.fork condition yes no).text = some (.fork condition yes no) := by
  rw [ofText?_of_silent rfl]
  simp only [wordsOf, List.map_cons, List.map_nil, String.ofList_toList, ofList_labelWord]
  change Instr.fork <$> Operand.ofText? condition.text <*> labelOf? ("%" ++ yes.text) <*>
    labelOf? ("%" ++ no.text) = _
  rw [condition.ofText?_text, labelOf?_append, labelOf?_append]
  rfl

end Statements

section Slots

/-- A text with a slot behind a quiet front is read off the words up to the mark and off what stands
behind it. -/
theorem ofText?_marked
    {front : String}
    (front_quiet : Quiet front)
    (behind : String) :
    ofText? (front ++ "%var_" ++ behind) =
      ofWords? behind (spelling (front ++ "%var_").toList) := by
  have parted : (front ++ "%var_" ++ behind).toList =
      front.toList ++ slotMark ++ behind.toList := by
    rw [String.toList_append, String.toList_append]
    rfl
  rw [ofText?, parted, dropInfix?_slotMark front_quiet, String.toList_append]
  exact congrArg (ofWords? · _) (String.ofList_toList)

theorem ofText?_alloca
    (variableName : String)
    (type : ValueType) :
    ofText? (Instr.alloca variableName type).text = some (.alloca variableName type) := by
  have spelled : (Instr.alloca variableName type).text =
      "" ++ "%var_" ++ (variableName ++ (" = alloca " ++ type.codeName)) := by
    change "%var_" ++ variableName ++ " = alloca " ++ type.codeName = _
    simp only [String.empty_append, String.append_assoc]
  have last : (spelling (variableName ++ (" = alloca " ++ type.codeName)).toList).getLast? =
      some type.codeName := by
    have parted : (variableName ++ (" = alloca " ++ type.codeName)).toList =
        (variableName ++ " = alloca").toList ++ ' ' :: type.codeName.toList := by
      simp
    rw [spelling, parted, words_append_words _ _ rfl, words_solid (solid_codeName type),
      List.map_append, List.map_singleton, String.ofList_toList, List.getLast?_concat]
  rw [spelled, ofText?_marked (by decide)]
  change ofReservation? _ = _
  rw [ofReservation?, last, Option.bind_some, before?_append, type.ofCodeName?_codeName]
  rfl

theorem ofText?_load
    (target : Register)
    (type : ValueType)
    (variableName : String) :
    ofText? (Instr.load target type variableName).text = some (.load target type variableName) := by
  have spelled (name : String) : (Instr.load target type name).text =
      Instr.define target ("load " ++ type.codeName ++ ", ptr ") ++ "%var_" ++ name := by
    change Instr.define target ("load " ++ type.codeName ++ ", ptr " ++ ("%var_" ++ name)) = _
    simp only [Instr.define, String.append_assoc]
  have front_quiet : Quiet (Instr.define target ("load " ++ type.codeName ++ ", ptr ")) :=
    quiet_define target ((Quiet.append (by decide) (quiet_codeName type)).append (by decide))
  have nameless := spelled ""
  rw [String.append_empty] at nameless
  rw [spelled, ofText?_marked front_quiet, ← nameless, spelling, words_load (by decide)]
  simp only [wordsOf, List.map_cons, List.map_nil, String.ofList_toList]
  change ofWords? _ (target.text :: "=" :: _) = _
  rw [ofWords?_define, Instr.slot, String.append_empty]
  change (Instr.load target · variableName) <$> ValueType.ofCodeName? type.codeName = _
  rw [type.ofCodeName?_codeName]
  rfl

theorem ofText?_store
    (type : ValueType)
    (value : Operand)
    (variableName : String) :
    ofText? (Instr.store type value variableName).text = some (.store type value variableName) := by
  have spelled (name : String) : (Instr.store type value name).text =
      "store " ++ type.codeName ++ " " ++ value.text ++ ", ptr " ++ "%var_" ++ name := by
    change "store " ++ type.codeName ++ " " ++ value.text ++ ", ptr " ++ ("%var_" ++ name) = _
    simp only [String.append_assoc]
  have front_quiet : Quiet ("store " ++ type.codeName ++ " " ++ value.text ++ ", ptr ") :=
    (((Quiet.append (by decide) (quiet_codeName type)).append (by decide)).append
      (quiet_operand value)).append (by decide)
  have nameless := spelled ""
  rw [String.append_empty] at nameless
  rw [spelled, ofText?_marked front_quiet, ← nameless, spelling, words_store value (by decide)]
  simp only [wordsOf, List.map_cons, List.map_nil, String.ofList_toList, Instr.slot,
    String.append_empty]
  change (Instr.store · · variableName) <$> ValueType.ofCodeName? type.codeName <*>
    Operand.ofText? value.text = _
  rw [type.ofCodeName?_codeName, value.ofText?_text]
  rfl

theorem ofText?_scan
    (template : Template)
    (variableName : String) :
    ofText? (Instr.scan template variableName).text = some (.scan template variableName) := by
  have spelled : (Instr.scan template variableName).text =
      "call i32 (ptr, ...) " ++ "@scanf(ptr" ++ " " ++ ("@" ++ template.name ++ ", ptr ") ++
        "%var_" ++ (variableName ++ ")") := by
    rw [scan_eq, Instr.slot]
    simp only [String.append_assoc]
  have front_quiet : Quiet
      ("call i32 (ptr, ...) " ++ "@scanf(ptr" ++ " " ++ ("@" ++ template.name ++ ", ptr ")) :=
    Quiet.append (by decide)
      ((Quiet.append (by decide) (quiet_template template)).append (by decide))
  rw [spelled, ofText?_marked front_quiet, String.append_assoc, spelling, words_callScan]
  simp only [callWords, List.cons_append, List.nil_append, List.map_cons, String.ofList_toList,
    ofList_templateWord]
  change Instr.scan <$> templateOf? ("@" ++ template.name) <*>
    before? ")" (variableName ++ ")") = _
  rw [templateOf?_append, before?_append]
  rfl

end Slots

/-- The text of an instruction is read back as the instruction. -/
theorem ofText?_text
    (instr : Instr) :
    ofText? instr.text = some instr := by
  cases instr with
  | alloca variableName type => exact ofText?_alloca variableName type
  | load target type variableName => exact ofText?_load target type variableName
  | store type value variableName => exact ofText?_store type value variableName
  | operate target operation left right => exact ofText?_operate target operation left right
  | fneg target value => exact ofText?_fneg target value
  | convert target conversion value => exact ofText?_convert target conversion value
  | phi target first firstFrom second secondFrom =>
      exact ofText?_phi target first second firstFrom secondFrom
  | select target condition yes no => exact ofText?_select target condition yes no
  | print template type value => exact ofText?_print template type value
  | printSelected format => exact ofText?_printSelected format
  | printText size number => exact ofText?_printText size number
  | scan template variableName => exact ofText?_scan template variableName
  | jump target => exact ofText?_jump target
  | fork condition yes no => exact ofText?_fork condition yes no
  | ret => rfl

example : ofText? "%r2 = icmp sle i32 %r1, -7" =
    some (.operate 2 (.compare .le .int) (.register 1) (.int (-7))) := by decide +kernel

example : ofText? "%r2 = icmp ule i32 %r1, 7" = none := by decide +kernel

end Instr

end MiniLang
