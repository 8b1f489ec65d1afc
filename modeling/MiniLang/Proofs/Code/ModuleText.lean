import MiniLang.Proofs.Code.Literals
import MiniLang.Proofs.Code.Readback

/-!
# Modules known by their text

The lines of a module are read here as a module.  Up to the first empty line they give constants,
those of the formats first.  Then come the declarations, and between the lines that open and close
the routine each line is a label or an instruction.  A generated module is read back from its lines,
so that what the machine does with its instructions is said of the text.
-/

namespace MiniLang

open CodeText

/-! ## Lines -/

/-- The label or instruction that a line of a routine spells. -/
def Item.ofLine? (line : String) : Option Item :=
  match behind? "  " line with
  | some text => .instr <$> Instr.ofText? text
  | none => .label <$> (before? ":" line).bind Label.ofText?

@[simp] theorem Item.ofLine?_line
    (item : Item) :
    ofLine? item.line = some item := by
  cases item with
  | instr instruction =>
      rw [Item.line, ofLine?, behind?_append]
      change Item.instr <$> Instr.ofText? instruction.text = _
      rw [Instr.ofText?_text]
      rfl
  | label opened =>
      have flush : behind? "  " (opened.text ++ ":") = none := by
        refine behind?_eq_none fun indented => ?_
        cases opened <;> simp [Label.text] at indented
      rw [Item.line, ofLine?, flush]
      change Item.label <$> (before? ":" (opened.text ++ ":")).bind Label.ofText? = _
      rw [before?_append, Option.bind_some, Label.ofText?_text]
      rfl

namespace TextConstant

/-- The constant with a name and with the bytes that a line gives it, if they are as many as the
line says and the last of them is the zero byte that ends them. -/
def ofBytes? (name : String) (size : Nat) (bytes : List UInt8) : Option TextConstant :=
  if bytes.length = size ∧ bytes.getLast? = some 0 then some ⟨name, bytes.dropLast⟩ else none

/-- The bytes that a word gives by their escapes between quotes. -/
def bytesOf? (word : String) : Option (List UInt8) :=
  ((behind? "c\"" word).bind (before? "\"")).bind fun escapes => decodeEscapes escapes.toList

/-- The constant that a line gives. -/
def ofLine? (line : String) : Option TextConstant :=
  match spelling line.toList with
  | [name, "=", "private", "unnamed_addr", "constant", size, "x", "i8]", bytes] =>
      (behind? "@" name).bind fun name => (numberBehind? "[" size).bind fun size =>
        (bytesOf? bytes).bind (ofBytes? name size)
  | _ => none

@[simp] theorem bytesOf?_escape
    (bytes : List UInt8) :
    bytesOf? ("c\"" ++ (escape bytes ++ "\"")) = some (bytes ++ [0]) := by
  rw [bytesOf?, behind?_append, Option.bind_some, before?_append, Option.bind_some,
    decodeEscapes_escape]

theorem solid_escape
    (bytes : List UInt8) :
    Solid (escape bytes).toList :=
  forall_mem_escape (by decide) (by decide) bytes

theorem spelling_line
    {constant : TextConstant}
    (solid : Solid constant.name.toList) :
    spelling constant.line.toList =
      ["@" ++ constant.name, "=", "private", "unnamed_addr", "constant",
        "[" ++ constant.sizeWithEnd.repr, "x", "i8]",
        "c\"" ++ (escape constant.bytes ++ "\"")] := by
  have spelled : constant.line.toList =
      ("@" ++ constant.name).toList ++ ' ' :: ("=".toList ++ ' ' :: ("private".toList ++ ' ' ::
        ("unnamed_addr".toList ++ ' ' :: ("constant".toList ++ ' ' ::
          (("[" ++ constant.sizeWithEnd.repr).toList ++ ' ' :: ("x".toList ++ ' ' ::
            ("i8]".toList ++ ' ' :: ("c\"" ++ (escape constant.bytes ++ "\"")).toList))))))) := by
    simp [TextConstant.line, Instr.bytesType]
  have name_solid : Solid ("@" ++ constant.name).toList := by
    rw [String.toList_append]
    exact Solid.append (by decide) solid
  have size_solid : Solid ("[" ++ constant.sizeWithEnd.repr).toList := by
    rw [String.toList_append]
    exact Solid.append (by decide) (solid_repr _)
  have bytes_solid : Solid ("c\"" ++ (escape constant.bytes ++ "\"")).toList := by
    rw [String.toList_append, String.toList_append]
    exact Solid.append (by decide) ((solid_escape _).append (by decide))
  rw [spelling, spelled, words_append name_solid rfl, words_append (by decide) rfl,
    words_append (by decide) rfl, words_append (by decide) rfl, words_append (by decide) rfl,
    words_append size_solid rfl, words_append (by decide) rfl, words_append (by decide) rfl,
    words_solid bytes_solid]
  simp only [List.map_cons, List.map_nil, String.ofList_toList]

/-- The line of a constant whose name is a word is read back as the constant. -/
theorem ofLine?_line
    {constant : TextConstant}
    (solid : Solid constant.name.toList) :
    ofLine? constant.line = some constant := by
  rw [ofLine?, spelling_line solid]
  change (behind? "@" ("@" ++ constant.name)).bind (fun name =>
    (numberBehind? "[" ("[" ++ constant.sizeWithEnd.repr)).bind fun size =>
      (bytesOf? ("c\"" ++ (escape constant.bytes ++ "\""))).bind (ofBytes? name size)) = _
  rw [behind?_append, Option.bind_some, numberBehind?_append, Option.bind_some, bytesOf?_escape,
    Option.bind_some, ofBytes?, if_pos ⟨List.length_append, List.getLast?_concat⟩,
    List.dropLast_concat]

/-- No line of a constant is empty. -/
theorem line_ne_empty
    (constant : TextConstant) :
    constant.line ≠ "" := by
  intro empty
  have head_eq := congrArg (fun line : String => line.toList.head?) empty
  simp [TextConstant.line] at head_eq

end TextConstant

/-! ## Modules -/

/-- Texts that are read back one by one are read back together. -/
theorem mapM_map_eq_some
    {read : String -> Option α}
    {spell : α -> String}
    {items : List α}
    (reads : ∀ item ∈ items, read (spell item) = some item) :
    (items.map spell).mapM read = some items := by
  induction items with
  | nil => rfl
  | cons item rest inductionHypothesis =>
      rw [List.forall_mem_cons] at reads
      rw [List.map_cons, List.mapM_cons, reads.1, inductionHypothesis reads.2]
      rfl

namespace CodeModule

/-- The module that lines give. -/
def ofLines? (lines : List String) : Option CodeModule := do
  let constants ← (lines.takeWhile (· ≠ "")).mapM TextConstant.ofLine?
  let texts ← constants.dropPrefix? (Template.all.map Template.constant)
  let routine ← (lines.dropWhile (· ≠ "")).dropPrefix? middle
  let inside ← routine.dropSuffix? [closingLine]
  let items ← inside.mapM Item.ofLine?
  some ⟨texts, items⟩

/-- A module whose constants have words for names is read back from its lines. -/
theorem ofLines?_lines
    {code : CodeModule}
    (solid : ∀ constant ∈ Template.all.map Template.constant ++ code.texts,
      Solid constant.name.toList) :
    ofLines? code.lines = some code := by
  have filled : ∀ line ∈ (Template.all.map Template.constant ++ code.texts).map TextConstant.line,
      decide (line ≠ "") = true := by
    intro line listed
    obtain ⟨constant, -, rfl⟩ := List.mem_map.1 listed
    exact decide_eq_true constant.line_ne_empty
  have lines_eq : code.lines =
      (Template.all.map Template.constant ++ code.texts).map TextConstant.line ++
        (middle ++ (code.items.map Item.line ++ [closingLine])) := by
    rw [CodeModule.lines_eq, List.append_assoc, List.append_assoc]
  have constants_eq : code.lines.takeWhile (· ≠ "") =
      (Template.all.map Template.constant ++ code.texts).map TextConstant.line := by
    rw [lines_eq, List.takeWhile_append_of_pos filled]
    exact List.append_nil _
  have others_eq : code.lines.dropWhile (· ≠ "") =
      middle ++ (code.items.map Item.line ++ [closingLine]) := by
    rw [lines_eq, List.dropWhile_append_of_pos filled]
    rfl
  have closed : (code.items.map Item.line ++ [closingLine]).dropSuffix? [closingLine] =
      some (code.items.map Item.line) :=
    List.dropSuffix?_eq_some_iff.2 ⟨[closingLine], rfl, BEq.rfl⟩
  have constants_read := mapM_map_eq_some fun constant listed =>
    TextConstant.ofLine?_line (solid constant listed)
  have items_read := mapM_map_eq_some fun item (_ : item ∈ code.items) => item.ofLine?_line
  rw [ofLines?, constants_eq, constants_read, others_eq]
  simp only [Option.bind_eq_bind, Option.bind_some, List.dropPrefix?_append_of_beq _ BEq.rfl,
    closed, items_read]

end CodeModule

/-- Generated code is read back from its text. -/
theorem Program.ofLines?_of_generate
    {program : Program}
    {tags : TagTable}
    {code : CodeModule}
    (generated : program.generate tags = .ok code) :
    CodeModule.ofLines? code.lines = some code := by
  obtain ⟨-, -, -, -, -, texts_eq⟩ := Program.stmtCode_of_generate generated
  exact CodeModule.ofLines?_lines (texts_eq ▸ program.forest.texts.solid_constants)

end MiniLang
