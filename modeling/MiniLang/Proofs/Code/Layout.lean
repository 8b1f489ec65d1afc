import Std.Data.String.ToNat
import MiniLang.Proofs.Code.Blocks
import MiniLang.Proofs.Text.Decimal

/-!
# The text of a routine

The lines of the generated text are read here for what they say, word by word and without recourse
to the instructions they were spelled from.  A line that is spelled from an instruction says of
itself what the instruction does: whether it ends a block, where it goes and what it defines.  So
the text of a routine falls into blocks as its instructions do.
-/

namespace MiniLang

namespace CodeText

/-- Whether a character stands between words. -/
def isSeparator (char : Char) : Bool :=
  char = ' ' || char = ','

/-- The words of a text. -/
def words (text : List Char) : List (List Char) :=
  text.splitOnP isSeparator

/-- The words of the line of an instruction, which is indented. -/
def instruction? (line : String) : Option (List (List Char)) :=
  match line.toList with
  | ' ' :: ' ' :: text => some (words text)
  | _ => none

/-- Whether words say that a block ends: the first of them is one of two. -/
def leaves (spelling : List (List Char)) : Bool :=
  spelling.head? = some "br".toList || spelling.head? = some "ret".toList

/-- The labels that words go to: those that are announced as labels, without their mark. -/
def destinations : List (List Char) -> List String
  | keyword :: name :: rest =>
    if keyword = "label".toList then String.ofList (name.drop 1) :: destinations rest
    else destinations (name :: rest)
  | _ => []

/-- The register that words define, if they start with a register and an equals sign. -/
def definition? : List (List Char) -> Option String
  | name :: sign :: _ =>
    if "%r".toList.isPrefixOf name && sign = "=".toList then some (String.ofList name) else none
  | _ => none

/-- Whether a line is an instruction that stays in its block. -/
def isPlain (line : String) : Bool :=
  (instruction? line).any fun spelling => !leaves spelling

/-- Whether a line is an instruction that ends its block. -/
def isTerminator (line : String) : Bool :=
  (instruction? line).any leaves

/-- The labels that a line goes to. -/
def targets (line : String) : List String :=
  ((instruction? line).map destinations).getD []

/-- The register that a line defines. -/
def defined? (line : String) : Option String :=
  (instruction? line).bind definition?

/-- A block of text: the line of a label, instructions that stay in the block, and the one that ends
it. -/
structure Block where
  label : String
  body : List String
  last : String
  body_plain : ∀ line ∈ body, isPlain line = true
  last_terminator : isTerminator last = true

/-- The lines of a block of text. -/
def Block.lines (block : Block) : List String :=
  (block.label ++ ":") :: (block.body ++ [block.last])

section Words

variable {text word : List Char}

/-- A text without separators is a word. -/
def Solid (text : List Char) : Prop :=
  ∀ char ∈ text, isSeparator char = false

instance (text : List Char) : Decidable (Solid text) :=
  List.decidableBAll _ text

theorem Solid.append
    (wordSolid : Solid word)
    (textSolid : Solid text) :
    Solid (word ++ text) := by
  intro char char_mem
  rcases List.mem_append.1 char_mem with in_word | in_text
  · exact wordSolid char in_word
  · exact textSolid char in_text

theorem words_solid
    (solid : Solid word) :
    words word = [word] :=
  List.splitOnP_eq_singleton solid

theorem words_append
    {separator : Char}
    (solid : Solid word)
    (separates : isSeparator separator = true) :
    words (word ++ separator :: text) = word :: words text :=
  List.splitOnP_append_cons_of_forall_mem solid separator separates text

/-- The first word starts as its text does. -/
theorem exists_words_cons
    {char : Char}
    (solid : isSeparator char = false)
    (text : List Char) :
    ∃ first others, words text = first :: others ∧ words (char :: text) = (char :: first) :: others
    := by
  cases split : words text with
  | nil => exact absurd split (List.splitOnP_ne_nil _ _)
  | cons first others =>
      refine ⟨first, others, rfl, ?_⟩
      unfold words at split ⊢
      rw [List.splitOnP_cons_eq_if_modifyHead, solid, split]
      rfl

theorem leaves_of_head
    {char : Char}
    (solid : isSeparator char = false)
    (no_branch : char ≠ 'b')
    (no_return : char ≠ 'r')
    (text : List Char) :
    leaves (words (char :: text)) = false := by
  obtain ⟨first, others, -, split⟩ := exists_words_cons solid text
  simp [leaves, split, no_branch, no_return]

theorem definition_of_head
    {char : Char}
    (solid : isSeparator char = false)
    (no_name : char ≠ '%')
    (text : List Char) :
    definition? (words (char :: text)) = none := by
  obtain ⟨first, others, -, split⟩ := exists_words_cons solid text
  rw [split]
  cases others with
  | nil => rfl
  | cons sign rest => simp [definition?, no_name.symm]

end Words

section Names

theorem isSeparator_of_isDigit
    {char : Char}
    (digit : char.isDigit = true) :
    isSeparator char = false := by
  cases separates : isSeparator char with
  | false => rfl
  | true =>
      rcases (by simpa [isSeparator] using separates) with rfl | rfl <;> cases digit

theorem solid_repr
    (number : Nat) :
    Solid number.repr.toList := by
  intro char char_mem
  exact isSeparator_of_isDigit (isDigit_of_mem_repr char_mem)

theorem solid_fixed
    (width value : Nat) :
    Solid (Hexadecimal.fixed width value) := by
  have digits : ∀ below : Fin 16, isSeparator (Hexadecimal.digit below) = false := by decide
  intro char char_mem
  obtain ⟨below, rfl⟩ := Hexadecimal.exists_digit_of_mem_fixed char_mem
  exact digits below

theorem solid_register
    (register : Register) :
    Solid register.text.toList := by
  rw [Register.text, String.toList_append]
  exact Solid.append (by decide) (solid_repr register)

theorem solid_label
    (label : Label) :
    Solid label.text.toList := by
  cases label with
  | entry => decide
  | numbered number =>
      rw [Label.text, String.toList_append]
      exact Solid.append (by decide) (solid_repr number)

theorem solid_operand
    (operand : Operand) :
    Solid operand.text.toList := by
  cases operand with
  | register number => exact solid_register number
  | int value =>
      intro char char_mem
      rcases isDigit_or_minus_of_mem_repr char_mem with digit | rfl
      · exact isSeparator_of_isDigit digit
      · rfl
  | double bits =>
      rw [Operand.text, String.toList_append]
      refine Solid.append (by decide) ?_
      rw [String.toList_ofList]
      exact solid_fixed 16 bits.toNat
  | bool value => cases value <;> decide

/-- An operand is not the word that announces a label. -/
theorem operand_ne_keyword
    (operand : Operand) :
    operand.text.toList ≠ "label".toList := by
  intro equal
  have head_eq : operand.text.toList.head? = some 'l' := by
    rw [equal]
    decide
  cases operand with
  | register number => simp [Operand.text, Register.text] at head_eq
  | int value =>
      rcases isDigit_or_minus_of_mem_repr (List.mem_of_head? head_eq) with digit | minus
      · exact absurd digit (by decide)
      · exact absurd minus (by decide)
  | double bits => simp [Operand.text] at head_eq
  | bool value => cases value <;> exact absurd head_eq (by decide)

end Names

section Instructions

variable (target : Register) (right : String)

theorem words_define :
    words (Instr.define target right).toList =
      target.text.toList :: ['='] :: words right.toList := by
  have spelled : (Instr.define target right).toList =
      target.text.toList ++ ' ' :: (['='] ++ ' ' :: right.toList) := by
    simp [Instr.define]
  rw [spelled, words_append (solid_register target) rfl, words_append (by decide) rfl]

theorem leaves_define : leaves (words (Instr.define target right).toList) = false := by
  simp [words_define, leaves, Register.text]

theorem definition_define :
    definition? (words (Instr.define target right).toList) = some target.text := by
  have marked : "%r".toList.isPrefixOf target.text.toList = true := by
    simp [Register.text]
  rw [words_define, definition?, marked, String.ofList_toList]
  rfl

/-- How the instructions start that neither end a block nor define a register. -/
def openings : List (List Char) :=
  ["%var_".toList, "store ".toList, "call ".toList]

theorem leaves_of_opening
    {opening : List Char}
    (opening_mem : opening ∈ openings)
    (text : List Char) :
    leaves (words (opening ++ text)) = false := by
  simp only [openings, List.mem_cons, List.not_mem_nil, or_false] at opening_mem
  rcases opening_mem with rfl | rfl | rfl
  · exact leaves_of_head (by decide) (by decide) (by decide) _
  · exact leaves_of_head (by decide) (by decide) (by decide) _
  · exact leaves_of_head (by decide) (by decide) (by decide) _

theorem definition_of_opening
    {opening : List Char}
    (opening_mem : opening ∈ openings)
    (text : List Char) :
    definition? (words (opening ++ text)) = none := by
  simp only [openings, List.mem_cons, List.not_mem_nil, or_false] at opening_mem
  rcases opening_mem with rfl | rfl | rfl
  · change definition? (words ('%' :: 'v' :: ("ar_".toList ++ text))) = none
    obtain ⟨first, others, -, split⟩ :=
      exists_words_cons (by decide : isSeparator 'v' = false) ("ar_".toList ++ text)
    obtain ⟨first', others', split', both⟩ :=
      exists_words_cons (by decide : isSeparator '%' = false) ('v' :: ("ar_".toList ++ text))
    rw [split] at split'
    cases split'
    rw [both]
    cases others with
    | nil => rfl
    | cons sign rest => simp [definition?]
  · exact definition_of_head (by decide) (by decide) _
  · exact definition_of_head (by decide) (by decide) _

theorem opens_append
    {opening : List Char}
    {first : String}
    (opens : opening <+: first.toList)
    (second : String) :
    opening <+: (first ++ second).toList := by
  rw [String.toList_append]
  exact opens.trans (List.prefix_append _ _)

theorem opens_callPrint
    (arguments : String) :
    "call ".toList <+: (Instr.callPrint arguments).toList :=
  opens_append (opens_append (by decide) _) _

/-- How an instruction is spelled that does not end its block. -/
theorem exists_spelling
    {instr : Instr}
    (plain : instr.isTerminator = false) :
    (∃ target right, instr.defined? = some target ∧ instr.text = Instr.define target right) ∨
      (instr.defined? = none ∧ ∃ opening ∈ openings, opening <+: instr.text.toList) := by
  cases instr with
  | alloca variableName type =>
      refine .inr ⟨rfl, "%var_".toList, by decide, ?_⟩
      exact opens_append (opens_append (opens_append (by decide) _) _) _
  | load target type variableName => exact .inl ⟨_, _, rfl, rfl⟩
  | store type value variableName =>
      refine .inr ⟨rfl, "store ".toList, by decide, ?_⟩
      exact opens_append (opens_append (opens_append (opens_append (opens_append
        (by decide) _) _) _) _) _
  | operate target operation left right => exact .inl ⟨_, _, rfl, rfl⟩
  | fneg target value => exact .inl ⟨_, _, rfl, rfl⟩
  | convert target conversion value => exact .inl ⟨_, _, rfl, rfl⟩
  | phi target first firstFrom second secondFrom => exact .inl ⟨_, _, rfl, rfl⟩
  | select target condition yes no => exact .inl ⟨_, _, rfl, rfl⟩
  | print template type value =>
      exact .inr ⟨rfl, "call ".toList, by decide, opens_callPrint _⟩
  | printSelected format =>
      exact .inr ⟨rfl, "call ".toList, by decide, opens_callPrint _⟩
  | printText size number =>
      exact .inr ⟨rfl, "call ".toList, by decide, opens_callPrint _⟩
  | scan template variableName =>
      refine .inr ⟨rfl, "call ".toList, by decide, ?_⟩
      exact opens_append (opens_append (opens_append (opens_append (by decide) _) _) _) _
  | jump target => cases plain
  | fork condition yes no => cases plain
  | ret => cases plain

theorem solid_marked
    (label : Label) :
    Solid ('%' :: label.text.toList) :=
  Solid.append (by decide : Solid ['%']) (solid_label label)

theorem words_jump
    (target : Label) :
    words (Instr.jump target).text.toList =
      ["br".toList, "label".toList, '%' :: target.text.toList] := by
  have spelled : (Instr.jump target).text.toList =
      "br".toList ++ ' ' :: ("label".toList ++ ' ' :: ('%' :: target.text.toList)) := by
    change ("br label %" ++ target.text).toList = _
    simp
  rw [spelled, words_append (by decide) rfl, words_append (by decide) rfl,
    words_solid (solid_marked target)]

theorem words_fork
    (condition : Operand)
    (yes no : Label) :
    words (Instr.fork condition yes no).text.toList =
      ["br".toList, "i1".toList, condition.text.toList, [], "label".toList,
        '%' :: yes.text.toList, [], "label".toList, '%' :: no.text.toList] := by
  have spelled : (Instr.fork condition yes no).text.toList =
      "br".toList ++ ' ' :: ("i1".toList ++ ' ' :: (condition.text.toList ++ ',' :: ([] ++ ' ' ::
        ("label".toList ++ ' ' :: (('%' :: yes.text.toList) ++ ',' :: ([] ++ ' ' ::
          ("label".toList ++ ' ' :: ('%' :: no.text.toList)))))))) := by
    change ("br i1 " ++ condition.text ++ ", label %" ++ yes.text ++ ", label %" ++
      no.text).toList = _
    simp
  rw [spelled, words_append (by decide) rfl, words_append (by decide) rfl,
    words_append (solid_operand condition) rfl, words_append (by decide) rfl,
    words_append (by decide) rfl, words_append (solid_marked yes) rfl,
    words_append (by decide) rfl, words_append (by decide) rfl, words_solid (solid_marked no)]

/-- The line of an instruction ends a block if the instruction does. -/
theorem leaves_text
    (instr : Instr) :
    leaves (words instr.text.toList) = instr.isTerminator := by
  cases terminator : instr.isTerminator with
  | false =>
      rcases exists_spelling terminator with ⟨target, right, -, spelled⟩ |
        ⟨-, opening, opening_mem, rest, spelled⟩
      · rw [spelled, leaves_define]
      · rw [← spelled, leaves_of_opening opening_mem]
  | true =>
      cases instr with
      | jump target =>
          rw [words_jump]
          rfl
      | fork condition yes no =>
          rw [words_fork]
          rfl
      | ret => decide
      | _ => cases terminator

/-- The line of an instruction names the register that the instruction defines. -/
theorem definition_text
    (instr : Instr) :
    definition? (words instr.text.toList) = instr.defined?.map Register.text := by
  cases terminator : instr.isTerminator with
  | false =>
      rcases exists_spelling terminator with ⟨target, right, defines, spelled⟩ |
        ⟨silent, opening, opening_mem, rest, spelled⟩
      · rw [spelled, definition_define, defines]
        rfl
      · rw [← spelled, definition_of_opening opening_mem, silent]
        rfl
  | true =>
      rw [Instr.defined_of_terminator terminator]
      cases instr with
      | jump target =>
          rw [words_jump]
          rfl
      | fork condition yes no =>
          rw [words_fork]
          rfl
      | ret => decide
      | _ => cases terminator

/-- The line of an instruction that ends a block names the labels that the instruction goes to. -/
theorem destinations_text
    {instr : Instr}
    (terminator : instr.isTerminator = true) :
    destinations (words instr.text.toList) = instr.targets.map Label.text := by
  cases instr with
  | jump target =>
      rw [words_jump]
      simp [destinations]
  | fork condition yes no =>
      rw [words_fork]
      have other : condition.text.toList ≠ "label".toList := operand_ne_keyword condition
      simp only [String.reduceToList] at other
      simp [destinations, other]
  | ret => decide
  | _ => cases terminator

end Instructions

end CodeText

/-- The line of text of a line of a routine. -/
def Item.line : Item -> String
  | .label opened => opened.text ++ ":"
  | .instr instruction => "  " ++ instruction.text

namespace Listing

/-- Listing lines of a routine adds their texts. -/
theorem lines_foldl_item
    (items : List Item)
    (listing : Listing) :
    (items.foldl Listing.item listing).lines.toList =
      listing.lines.toList ++ items.map Item.line := by
  induction items generalizing listing with
  | nil => simp
  | cons item rest inductionHypothesis =>
      rw [List.foldl_cons, inductionHypothesis]
      cases item with
      | label opened => simp [item, label, line, Item.line]
      | instr instruction => simp [item, instr, line, Item.line]

/-- Listing a constant adds a line that starts with the mark of a global name. -/
theorem exists_line_constant
    (listing : Listing)
    (constant : TextConstant) :
    ∃ line, (listing.constant constant).lines.toList = listing.lines.toList ++ [line] ∧
      line.toList.head? = some '@' :=
  ⟨_, Array.toList_push, by simp⟩

theorem exists_lines_foldl_constant
    (constants : List TextConstant)
    (listing : Listing) :
    ∃ added, (constants.foldl Listing.constant listing).lines.toList =
        listing.lines.toList ++ added ∧
      ∀ line ∈ added, line.toList.head? = some '@' := by
  induction constants generalizing listing with
  | nil => exact ⟨[], by simp, by simp⟩
  | cons constant rest inductionHypothesis =>
      obtain ⟨line, line_eq, line_marked⟩ := exists_line_constant listing constant
      obtain ⟨added, lines_eq, marked⟩ := inductionHypothesis (listing.constant constant)
      refine ⟨line :: added, ?_, List.forall_mem_cons.2 ⟨line_marked, marked⟩⟩
      rw [List.foldl_cons, lines_eq, line_eq, List.append_assoc]
      rfl

end Listing

/-- The lines of a module: those before the routine, none of which opens it, and the routine. -/
theorem CodeModule.exists_lines
    (code : CodeModule) :
    ∃ before, CodeModule.openingLine ∉ before ∧
      code.lines = before ++ CodeModule.openingLine ::
        (code.items.map Item.line ++ [CodeModule.closingLine]) := by
  obtain ⟨added, lines_eq, marked⟩ := Listing.exists_lines_foldl_constant
    (Template.all.map Template.constant ++ code.texts) {}
  refine ⟨added ++ ["", "declare i32 @printf(ptr, ...)", "declare i32 @scanf(ptr, ...)", ""], ?_,
    ?_⟩
  · rw [List.mem_append]
    rintro (in_constants | in_declarations)
    · exact absurd (marked _ in_constants) (by decide)
    · exact absurd in_declarations (by decide)
  · rw [CodeModule.lines, CodeModule.listing]
    simp only [Listing.line, Listing.blank, Array.toList_push, Listing.lines_foldl_item, lines_eq]
    simp

namespace CodeText

@[simp] theorem instruction?_line
    (instr : Instr) :
    instruction? (Item.instr instr).line = some (words instr.text.toList) := by
  unfold instruction? Item.line
  rw [String.toList_append]
  rfl

/-- The text of a block. -/
def Block.ofBlock (block : MiniLang.Block) : Block where
  label := block.label.text
  body := block.body.map fun instr => (Item.instr instr).line
  last := (Item.instr block.last).line
  body_plain := by
    intro line line_mem
    obtain ⟨instr, instr_mem, rfl⟩ := List.mem_map.1 line_mem
    simp [isPlain, leaves_text, block.body_plain instr instr_mem]
  last_terminator := by simp [isTerminator, leaves_text, block.last_terminator]

@[simp] theorem Block.label_ofBlock (block : MiniLang.Block) :
    (Block.ofBlock block).label = block.label.text := rfl

@[simp] theorem Block.lines_ofBlock
    (block : MiniLang.Block) :
    (Block.ofBlock block).lines = block.items.map Item.line := by
  simp [Block.lines, Block.ofBlock, MiniLang.Block.items, MiniLang.Block.instrs, Item.line,
    Function.comp_def]

theorem head?_line
    (item : Item) :
    item.line.toList.head? ∈ [some ' ', some 'e', some 'L'] := by
  cases item with
  | instr instruction => simp [Item.line]
  | label opened => cases opened <;> simp [Item.line, Label.text]

@[simp] theorem instruction?_label
    (opened : Label) :
    instruction? (Item.label opened).line = none := by
  have head_ne : (Item.label opened).line.toList.head? ≠ some ' ' := by
    cases opened <;> simp [Item.line, Label.text]
  unfold instruction?
  split
  · next text spelled => simp [spelled] at head_ne
  · rfl

theorem defined?_line
    (item : Item) :
    defined? item.line = item.defined?.map Register.text := by
  cases item with
  | instr instruction => simp [defined?, definition_text]
  | label opened => simp [defined?]

theorem defined?_lines
    (items : List Item) :
    (items.map Item.line).filterMap defined? =
      (items.filterMap Item.defined?).map Register.text := by
  rw [List.filterMap_map, List.map_filterMap]
  exact List.filterMap_congr fun item _ => defined?_line item

theorem targets_last
    (block : MiniLang.Block) :
    targets (Block.ofBlock block).last = block.last.targets.map Label.text := by
  simp [targets, Block.ofBlock, destinations_text block.last_terminator]

end CodeText

/-- Different labels are spelled differently. -/
theorem Label.text_injective : Function.Injective Label.text := by
  intro label other equal
  have spelled_eq := congrArg String.toList equal
  cases label with
  | entry =>
      cases other with
      | entry => rfl
      | numbered number => simp [Label.text] at spelled_eq
  | numbered number =>
      cases other with
      | entry => simp [Label.text] at spelled_eq
      | numbered number' =>
          simp only [Label.text, String.toList_append, List.append_cancel_left_eq,
            String.toList_inj] at spelled_eq
          rw [Nat.repr_injective spelled_eq]

/-- The lines of a generated routine fall into blocks, each with the line of its label first and
then instructions of which the last one alone ends the block.  The labels are that of the entry and
numbered ones without gaps, each on one line only; branches go to the numbered ones; and the
registers that the lines define are numbered in the order of the lines. -/
theorem routine_lines_split
    {program : Program}
    {tags : TagTable}
    {code : CodeModule}
    (generated : program.generate tags = .ok code) :
    ∃ (before : List String) (blocks : List CodeText.Block) (labels registers : Nat),
      code.lines = before ++ CodeModule.openingLine ::
        (blocks.flatMap CodeText.Block.lines ++ [CodeModule.closingLine]) ∧
      CodeModule.openingLine ∉ before ∧
      CodeModule.closingLine ∉ blocks.flatMap CodeText.Block.lines ∧
      (∃ others, blocks.map CodeText.Block.label = "entry" :: others ∧
        others.Perm ((List.range' 1 labels).map fun number => "L" ++ number.repr)) ∧
      (blocks.map CodeText.Block.label).Nodup ∧
      (∀ block ∈ blocks, ∀ target ∈ CodeText.targets block.last,
        target ∈ (List.range' 1 labels).map fun number => "L" ++ number.repr) ∧
      (blocks.flatMap CodeText.Block.lines).filterMap CodeText.defined? =
        (List.range' 1 registers).map fun number => "%r" ++ number.repr := by
  obtain ⟨registers, labels, blocks, routine⟩ := Program.exists_routine generated
  obtain ⟨before, not_opening, lines_eq⟩ := code.exists_lines
  obtain ⟨others, label_eq, arranged⟩ := routine.label_eq
  have text_eq : (blocks.map CodeText.Block.ofBlock).flatMap CodeText.Block.lines =
      code.items.map Item.line := by
    simp [routine.items_eq, List.flatMap_map, List.map_flatMap]
  have label_text : (blocks.map CodeText.Block.ofBlock).map CodeText.Block.label =
      (blocks.map MiniLang.Block.label).map Label.text := by
    simp [Function.comp_def]
  refine ⟨before, blocks.map CodeText.Block.ofBlock, labels, registers, ?_, not_opening, ?_, ?_, ?_,
    ?_, ?_⟩
  · rw [text_eq, lines_eq]
  · rw [text_eq, List.mem_map]
    rintro ⟨item, -, is_closing⟩
    have head_mem := CodeText.head?_line item
    rw [is_closing] at head_mem
    exact absurd head_mem (by decide)
  · rw [label_text, label_eq]
    refine ⟨_, rfl, ?_⟩
    have spelled := arranged.map Label.text
    rwa [List.map_map] at spelled
  · rw [label_text]
    exact routine.nodup_labels.map Label.text_injective
  · intro text text_mem target target_mem
    obtain ⟨block, block_mem, rfl⟩ := List.mem_map.1 text_mem
    rw [CodeText.targets_last] at target_mem
    obtain ⟨label, label_mem, rfl⟩ := List.mem_map.1 target_mem
    have between := routine.target_between label
      (routine.items_eq ▸ MiniLang.Block.mem_targets_items block_mem label_mem)
    cases label with
    | entry => exact absurd between id
    | numbered number =>
        refine List.mem_map.2 ⟨number, ?_, rfl⟩
        exact Lowering.mem_numbers.2 between
  · rw [text_eq, CodeText.defined?_lines, routine.defined_eq]
    rfl

/-- A program that leaves in the body of a loop, under a condition of two parts. -/
def returningLoop : Program :=
  let left := (Forest.empty.addExpr 1 (.bool true)).2
  let both := (left.addExpr 1 (.bool false)).2
  let condition := (both.addExpr 1 (.binary .and 0 1)).2
  let body := (condition.addStmt 1 .leave).2
  (Program.assemble [] [1] (body.addStmt 1 (.loop 2 0)).2).1

/-- The lines of the loop fall into blocks with different labels. -/
theorem returningLoop_lines :
    ∃ (code : CodeModule) (before : List String) (blocks : List CodeText.Block),
      returningLoop.generate ⟨Array.replicate 3 (some (.value .bool))⟩ = .ok code ∧
      code.lines = before ++ CodeModule.openingLine ::
        (blocks.flatMap CodeText.Block.lines ++ [CodeModule.closingLine]) ∧
      (blocks.map CodeText.Block.label).Nodup := by
  obtain ⟨code, generated⟩ :
      ∃ code, returningLoop.generate ⟨Array.replicate 3 (some (.value .bool))⟩ = .ok code :=
    ⟨_, rfl⟩
  obtain ⟨before, blocks, -, -, lines_eq, -, -, -, nodup, -⟩ := routine_lines_split generated
  exact ⟨code, before, blocks, generated, lines_eq, nodup⟩

end MiniLang
