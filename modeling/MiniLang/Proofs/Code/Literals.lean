import MiniLang.Proofs.Code.Constants
import MiniLang.Proofs.Code.Landmarks
import MiniLang.Proofs.Diagnostic.Limit
import MiniLang.Proofs.Reading.Leaves
import MiniLang.Proofs.Reading.Recognition
import MiniLang.Proofs.Semantics.Statements
import MiniLang.Proofs.Token.Quotation

/-!
# String literals from source to code

The string literals of a source text that compiles are the strings that its program writes, in the
same order.  Each has a constant of its own, whose escapes stand for its bytes and a zero byte, and
one call that prints this constant, in the place of the statement that writes it.
-/

namespace MiniLang

/-! ## Escapes -/

namespace CodeText

/-- The value of a hexadecimal digit: its place among the digits. -/
def hexValue? (digit : Char) : Option Nat :=
  "0123456789ABCDEF".toList.findIdx? (· == digit)

/-- The bytes that escapes stand for, each a backslash and two hexadecimal digits. -/
def decodeEscapes : List Char -> Option (List UInt8)
  | [] => some []
  | '\\' :: high :: low :: rest => do
      let high ← hexValue? high
      let low ← hexValue? low
      let bytes ← decodeEscapes rest
      some (UInt8.ofNat (16 * high + low) :: bytes)
  | _ => none

theorem hexValue?_digit
    {value : Nat}
    (small : value < 16) :
    hexValue? (Hexadecimal.digit value) = some value := by
  have digits : ∀ digit : Fin 16, hexValue? (Hexadecimal.digit digit) = some digit.val := by
    decide
  exact digits ⟨value, small⟩

theorem decodeEscapes_escapeByte
    (byte : UInt8)
    (rest : List Char) :
    decodeEscapes (TextConstant.escapeByte byte ++ rest) =
      (decodeEscapes rest).map (byte :: ·) := by
  have byte_lt : byte.toNat < 256 := byte.toNat_lt
  have spelled : TextConstant.escapeByte byte = ['\\', Hexadecimal.digit (byte.toNat / 16 % 16),
      Hexadecimal.digit (byte.toNat % 16)] := rfl
  have value_eq : 16 * (byte.toNat / 16 % 16) + byte.toNat % 16 = byte.toNat := by omega
  rw [spelled]
  change decodeEscapes ('\\' :: _ :: _ :: rest) = _
  rw [decodeEscapes, hexValue?_digit (by omega), hexValue?_digit (by omega)]
  simp only [Option.bind_eq_bind, Option.bind_some, value_eq, UInt8.ofNat_toNat]
  cases decodeEscapes rest <;> rfl

/-- The escapes of bytes stand for the bytes. -/
theorem decodeEscapes_flatMap
    (bytes : List UInt8) :
    decodeEscapes (bytes.flatMap TextConstant.escapeByte) = some bytes := by
  induction bytes with
  | nil => rfl
  | cons byte bytes inductionHypothesis =>
      rw [List.flatMap_cons, decodeEscapes_escapeByte, inductionHypothesis]
      rfl

theorem decodeEscapes_escape
    (bytes : List UInt8) :
    decodeEscapes (TextConstant.escape bytes).toList = some (bytes ++ [0]) := by
  rw [TextConstant.escape, String.toList_ofList, decodeEscapes_flatMap]

end CodeText

/-! ## Literals among the tokens -/

/-- The bytes of a token that is a string literal. -/
def Token.text? (token : Token) : Option (List UInt8) :=
  match token.kind with
  | .text bytes => some bytes
  | _ => none

/-- The string literals among tokens. -/
def Token.literals (tokens : List Token) : List (List UInt8) :=
  tokens.filterMap Token.text?

@[simp] theorem Token.literals_nil : Token.literals [] = [] := rfl

@[simp] theorem Token.literals_cons
    (token : Token)
    (tokens : List Token) :
    Token.literals (token :: tokens) = token.text?.toList ++ Token.literals tokens := by
  rw [literals, List.filterMap_cons]
  cases token.text? <;> rfl

@[simp] theorem Token.literals_append
    (front back : List Token) :
    Token.literals (front ++ back) = Token.literals front ++ Token.literals back :=
  List.filterMap_append

/-- No string stands in an expression. -/
theorem Term.filterMap_leaves_text
    (term : Term)
    (line : Line) :
    term.leaves.filterMap (fun kind => Token.text? ⟨kind, line⟩) = [] := by
  induction term with
  | name | int | double | bool => rfl
  | unary _ _ _ inductionHypothesis | assign _ _ _ inductionHypothesis => exact inductionHypothesis
  | binary _ _ _ _ leftHypothesis rightHypothesis =>
      rw [Term.leaves, List.filterMap_append, leftHypothesis, rightHypothesis, List.append_nil]

/-- The strings of statements are those that they write. -/
theorem Clause.filterMap_leaves_text
    (clause : Clause)
    (line : Line) :
    clause.leaves.filterMap (fun kind => Token.text? ⟨kind, line⟩) = clause.texts := by
  induction clause with
  | done | read | writeText | leave => rfl
  | seq _ _ firstHypothesis restHypothesis =>
      rw [Clause.leaves, List.filterMap_append, firstHypothesis, restHypothesis, Clause.texts]
  | block _ _ inductionHypothesis => exact inductionHypothesis
  | expr _ value | write _ value => exact value.filterMap_leaves_text line
  | branch _ condition _ inductionHypothesis | loop _ condition _ inductionHypothesis =>
      rw [Clause.leaves, List.filterMap_append, condition.filterMap_leaves_text, inductionHypothesis,
        List.nil_append, Clause.texts]
  | choice _ condition _ _ yesHypothesis noHypothesis =>
      rw [Clause.leaves, List.filterMap_append, List.filterMap_append,
        condition.filterMap_leaves_text, yesHypothesis, noHypothesis, List.nil_append, Clause.texts]

/-- The string literals of a program are the strings that it writes. -/
theorem Grammar.Derives.texts_eq
    {tokens : List Token}
    {tree : SyntaxTree}
    (derives : Derives tokens tree) :
    Token.literals tokens = tree.body.texts := by
  have silent (kind : Token.Kind) (other : kind.isLiteral = false) : Token.text? ⟨kind, 0⟩ = none := by
    cases kind with
    | text => cases other
    | _ => rfl
  exact (derives.filterMap_eq _ silent).trans (tree.body.filterMap_leaves_text 0)

/-! ## Constants -/

namespace CodeText

/-- The name that a line gives to a constant: a first word with the mark of global names, before an
equals sign. -/
def constantName? (line : String) : Option String :=
  match words line.toList with
  | name :: sign :: _ =>
      if name.head? = some '@' && sign = "=".toList then some (String.ofList name) else none
  | _ => none

/-- A line with another mark names no constant. -/
theorem constantName?_of_head
    {line : String}
    (other : line.toList.head? ≠ some '@') :
    constantName? line = none := by
  unfold constantName?
  cases spelled : line.toList with
  | nil => rfl
  | cons character rest =>
      rw [spelled] at other
      cases separates : isSeparator character with
      | true =>
          have split : words (character :: rest) = [] :: words rest :=
            words_append (by decide : Solid []) separates
          rw [split]
          cases words rest <;> rfl
      | false =>
          obtain ⟨first, others, -, split⟩ := exists_words_cons separates rest
          rw [split]
          cases others with
          | nil => rfl
          | cons sign others =>
              have other : character ≠ '@' := by simpa using other
              simp [other]

theorem constantName?_line
    {constant : TextConstant}
    (solid : Solid constant.name.toList) :
    constantName? constant.line = some ("@" ++ constant.name) := by
  have spelled : constant.line.toList = ('@' :: constant.name.toList) ++ ' ' :: ("=".toList ++ ' ' ::
      ("private unnamed_addr constant " ++ Instr.bytesType constant.sizeWithEnd ++ " c\"" ++
        TextConstant.escape constant.bytes ++ "\"").toList) := by
    simp [TextConstant.line]
  have nameSolid : Solid ('@' :: constant.name.toList) :=
    Solid.append (by decide : Solid ['@']) solid
  rw [constantName?, spelled, words_append nameSolid rfl, words_append (by decide) rfl]
  simp

/-- The line that gives the string constant with a given number its size and its escaped bytes. -/
def constantLine (number size : Nat) (escaped : String) : String :=
  "@str_" ++ number.repr ++ " = private unnamed_addr constant [" ++ size.repr ++ " x i8] c\"" ++
    escaped ++ "\""

theorem line_nameOf
    (number : Nat)
    (bytes : List UInt8) :
    TextConstant.line ⟨TextPool.nameOf number, bytes⟩ =
      constantLine number (bytes.length + 1) (TextConstant.escape bytes) := by
  have front_eq : "@" ++ "str_" = "@str_" := by decide +kernel
  have middle_eq : " = private unnamed_addr constant " ++ "[" =
      " = private unnamed_addr constant [" := by decide +kernel
  have back_eq : " x i8]" ++ " c\"" = " x i8] c\"" := by decide +kernel
  have regrouped (a b c d e f g number size escaped : String) :
      a ++ (b ++ number) ++ c ++ (d ++ size ++ e) ++ f ++ escaped ++ g =
        a ++ b ++ number ++ (c ++ d) ++ size ++ (e ++ f) ++ escaped ++ g := by
    simp only [String.append_assoc]
  refine (regrouped ..).trans ?_
  rw [front_eq, middle_eq, back_eq]
  rfl

end CodeText

open CodeText

/-- The entry of a list at a place is the only one with its number. -/
theorem filter_zipIdx
    {items : List α}
    {place : Nat}
    {item : α}
    (found : items[place]? = some item)
    (start : Nat) :
    (items.zipIdx start).filter (fun entry => entry.2 = start + place) = [(item, start + place)] := by
  induction items generalizing place start with
  | nil => cases found
  | cons first rest inductionHypothesis =>
      rw [List.zipIdx_cons]
      cases place with
      | zero =>
          cases found
          rw [List.filter_cons_of_pos (by simp), List.filter_eq_nil_iff.2]
          · rfl
          · intro entry listed
            have later := List.le_snd_of_mem_zipIdx listed
            simp only [decide_eq_true_eq]
            omega
      | succ place =>
          have place_eq : start + (place + 1) = start + 1 + place := by omega
          rw [List.filter_cons_of_neg (by simp), place_eq]
          exact inductionHypothesis found (start + 1)

theorem Template.name_ne_nameOf
    (template : Template)
    (number : Nat) :
    template.name ≠ TextPool.nameOf number := by
  intro equal
  have head_eq : template.name.toList.head? = some 'f' := by cases template <;> decide
  rw [equal, TextPool.nameOf, String.toList_append] at head_eq
  simp at head_eq

/-- Lines that do not start with the mark of global names are all outside the constants. -/
theorem filter_constantName_eq_nil
    {lines : List String}
    (others : ∀ line ∈ lines, line.toList.head? ≠ some '@')
    (name : String) :
    lines.filter (fun line => constantName? line = some name) = [] := by
  rw [List.filter_eq_nil_iff]
  intro line listed
  rw [constantName?_of_head (others line listed)]
  simp

/-- The lines of the constants with a given name. -/
theorem filter_constantName
    {constants : List TextConstant}
    (solid : ∀ constant ∈ constants, Solid constant.name.toList)
    (name : String) :
    (constants.map TextConstant.line).filter (fun line => constantName? line = some ("@" ++ name)) =
      (constants.filter fun constant => constant.name = name).map TextConstant.line := by
  rw [List.filter_map]
  refine congrArg (List.map TextConstant.line) (List.filter_congr fun constant listed => ?_)
  rw [Function.comp_apply, constantName?_line (solid constant listed)]
  simp

/-- The constants of the formats and of a pool have words for names. -/
theorem TextPool.solid_constants
    (pool : TextPool) :
    ∀ constant ∈ Template.all.map Template.constant ++ pool.toList, Solid constant.name.toList := by
  rw [List.forall_mem_append]
  constructor
  · decide +kernel
  · intro constant listed
    obtain ⟨entry, -, rfl⟩ := List.mem_map.1 listed
    simp only [TextPool.nameOf, String.toList_append]
    exact Solid.append (by decide) (solid_repr entry.2)

/-- A string constant has one line of its own. -/
theorem CodeModule.filter_lines
    {code : CodeModule}
    {pool : TextPool}
    {number : Nat}
    {bytes : List UInt8}
    (texts_eq : code.texts = pool.toList)
    (found : pool.constants.toList[number]? = some bytes) :
    code.lines.filter (fun line => constantName? line = some ("@str_" ++ number.repr)) =
      [constantLine number (bytes.length + 1) (TextConstant.escape bytes)] := by
  have name_eq : "@str_" ++ number.repr = "@" ++ TextPool.nameOf number := by
    have front_eq : "@str_" = "@" ++ "str_" := by decide +kernel
    rw [front_eq, String.append_assoc, TextPool.nameOf]
  have templates_eq : (Template.all.map Template.constant).filter
      (fun constant => constant.name = TextPool.nameOf number) = [] := by
    rw [List.filter_eq_nil_iff]
    intro constant listed
    obtain ⟨template, -, rfl⟩ := List.mem_map.1 listed
    rw [decide_eq_true_eq]
    exact template.name_ne_nameOf number
  have pool_eq : pool.toList.filter (fun constant => constant.name = TextPool.nameOf number) =
      [⟨TextPool.nameOf number, bytes⟩] := by
    have entry_eq := filter_zipIdx found 0
    rw [Nat.zero_add] at entry_eq
    rw [TextPool.toList, List.filter_map]
    have same : (fun entry : List UInt8 × Nat => decide (entry.2 = number)) =
        (fun constant : TextConstant => decide (constant.name = TextPool.nameOf number)) ∘
          fun entry : List UInt8 × Nat => ⟨TextPool.nameOf entry.2, entry.1⟩ := by
      funext entry
      simp [TextPool.nameOf_injective.eq_iff]
    rw [← same, entry_eq]
    rfl
  have items_head : ∀ line ∈ code.items.map Item.line, line.toList.head? ≠ some '@' := by
    intro line listed equal
    obtain ⟨item, -, rfl⟩ := List.mem_map.1 listed
    have head_mem := head?_line item
    rw [equal] at head_mem
    simp at head_mem
  rw [name_eq, CodeModule.lines_eq, List.filter_append, List.filter_append, List.filter_append,
    filter_constantName (texts_eq ▸ pool.solid_constants), List.filter_append, templates_eq,
    texts_eq, pool_eq,
    filter_constantName_eq_nil (by decide +kernel), filter_constantName_eq_nil items_head,
    filter_constantName_eq_nil (by decide +kernel)]
  simp only [List.nil_append, List.append_nil, List.map_cons, List.map_nil, line_nameOf]

/-! ## Calls -/

/-- The call that a landmark holds. -/
def Landmark.text? : Landmark -> Option String
  | .text line => some line
  | _ => none

/-- The calls that landmarks hold. -/
def Landmark.calls (landmarks : List Landmark) : List String :=
  landmarks.filterMap Landmark.text?

@[simp] theorem Landmark.calls_nil : Landmark.calls [] = [] := rfl

@[simp] theorem Landmark.calls_cons
    (landmark : Landmark)
    (landmarks : List Landmark) :
    Landmark.calls (landmark :: landmarks) = landmark.text?.toList ++ Landmark.calls landmarks := by
  rw [calls, List.filterMap_cons]
  cases landmark.text? <;> rfl

@[simp] theorem Landmark.calls_append
    (front back : List Landmark) :
    Landmark.calls (front ++ back) = Landmark.calls front ++ Landmark.calls back :=
  List.filterMap_append

namespace CodeText

/-- Whether a line calls the print routine with a string constant. -/
def isTextCall (line : String) : Bool :=
  landmark? line = some (.text line)

theorem landmarkOf_text
    {line spelled : String}
    {first second sixth seventh : Option (List Char)}
    (found : landmarkOf line first second sixth seventh = some (.text spelled)) :
    spelled = line := by
  unfold landmarkOf at found
  split at found
  · cases found
  split at found
  · split at found <;> cases found
  split at found
  · split at found
    · cases found
    split at found
    · cases found
      rfl
    · cases found
  · cases found

/-- The calls with string constants are told from the landmarks. -/
theorem filter_isTextCall
    (lines : List String) :
    lines.filter isTextCall = Landmark.calls (lines.filterMap landmark?) := by
  rw [Landmark.calls, List.filterMap_filterMap, ← List.filterMap_eq_filter]
  refine List.filterMap_congr fun line _ => ?_
  rw [Option.guard, isTextCall]
  cases found : landmark? line with
  | none => rfl
  | some landmark =>
      cases landmark with
      | text spelled =>
          obtain ⟨spelling, -, landmark_eq⟩ := Option.bind_eq_some_iff.1 found
          rw [landmarkOf_text landmark_eq, decide_eq_true rfl]
          rfl
      | _ => rfl

/-- A line that is not indented is no instruction. -/
theorem instruction?_of_line_head
    {line : String}
    (other : line.toList.head? ≠ some ' ') :
    instruction? line = none := by
  unfold instruction?
  split
  · next text spelled =>
      rw [spelled] at other
      exact absurd rfl other
  · rfl

end CodeText

/-- Around the items of a module there are no instructions. -/
theorem CodeModule.exists_lines_eq
    (code : CodeModule) :
    ∃ front back, code.lines = front ++ code.items.map Item.line ++ back ∧
      ∀ line ∈ front ++ back, instruction? line = none := by
  have constants_head : ∀ line ∈ (Template.all.map Template.constant ++ code.texts).map
      TextConstant.line, line.toList.head? ≠ some ' ' := by
    intro line listed
    obtain ⟨constant, -, rfl⟩ := List.mem_map.1 listed
    simp [TextConstant.line]
  have others_head : ∀ line ∈ CodeModule.middle ++ [CodeModule.closingLine],
      line.toList.head? ≠ some ' ' := by
    decide +kernel
  refine ⟨_, _, code.lines_eq, fun line listed => instruction?_of_line_head ?_⟩
  rw [List.append_assoc, List.mem_append] at listed
  exact listed.elim (constants_head line) (others_head line)

/-- The landmarks of a module are those of its routine. -/
theorem CodeModule.filterMap_landmark?
    (code : CodeModule) :
    code.lines.filterMap landmark? = Item.landmarks code.items := by
  obtain ⟨front, back, lines_eq, outside⟩ := code.exists_lines_eq
  rw [List.forall_mem_append] at outside
  have silent {lines : List String} (others : ∀ line ∈ lines, instruction? line = none) :
      lines.filterMap landmark? = [] := by
    refine List.filterMap_eq_nil_iff.2 fun line listed => ?_
    rw [landmark?, others line listed, Option.bind_none]
  rw [lines_eq, List.filterMap_append, List.filterMap_append, silent outside.1, silent outside.2,
    List.filterMap_map, List.nil_append, List.append_nil]
  exact List.filterMap_congr fun item _ => landmark?_line item

/-- No string is printed for an expression. -/
theorem Term.calls_outline
    (term : Term) :
    Landmark.calls term.outline = [] := by
  induction term with
  | unary _ _ _ inductionHypothesis | assign _ _ _ inductionHypothesis => exact inductionHypothesis
  | binary _ op _ _ leftHypothesis rightHypothesis =>
      rw [Term.outline]
      split <;> simp [leftHypothesis, rightHypothesis, Landmark.text?]
  | _ => rfl

/-- The calls of a statement print its strings, in order and by their numbers. -/
theorem Clause.calls_outline
    (clause : Clause)
    (before : Nat) :
    Landmark.calls (clause.outline before) =
      (clause.texts.zipIdx before).map fun entry => textCall entry.2 (entry.1.length + 1) := by
  induction clause generalizing before with
  | seq _ _ firstHypothesis restHypothesis =>
      rw [Clause.outline, Clause.texts, Landmark.calls_append, firstHypothesis, restHypothesis,
        List.zipIdx_append, List.map_append]
  | block _ _ inductionHypothesis => exact inductionHypothesis before
  | expr _ value => exact value.calls_outline
  | branch _ condition _ inductionHypothesis =>
      simp [Clause.outline, Clause.texts, condition.calls_outline, inductionHypothesis,
        Landmark.text?]
  | choice _ condition _ _ yesHypothesis noHypothesis =>
      simp [Clause.outline, Clause.texts, condition.calls_outline, yesHypothesis, noHypothesis,
        Landmark.text?, List.zipIdx_append]
  | loop _ condition _ inductionHypothesis =>
      simp [Clause.outline, Clause.texts, condition.calls_outline, inductionHypothesis,
        Landmark.text?]
  | write _ value _ => simp [Clause.outline, Clause.texts, value.calls_outline, Landmark.text?]
  | done | writeText | read | leave => rfl

/-- The landmarks of a generated module are those of the syntax tree, and the end. -/
theorem Program.WellFounded.landmarks_eq
    {program : Program}
    {tags : TagTable}
    {code : CodeModule}
    {tree : SyntaxTree}
    (wellFounded : program.WellFounded)
    (readBack : program.ReadsBack tree)
    (generated : program.generate tags = .ok code) :
    code.lines.filterMap landmark? = tree.body.outline 0 ++ [.leave] := by
  obtain ⟨body, registers, labels, emitted, items_eq, -⟩ := Program.stmtCode_of_generate generated
  have body_eq := emitted.landmarks_eq wellFounded.forest rfl readBack.bodyHeld
  have slots_eq : Item.landmarks program.scope.slots = [] := by
    refine List.filterMap_eq_nil_iff.2 fun item listed => ?_
    obtain ⟨declaration, -, rfl⟩ := List.mem_map.1 listed
    rfl
  rw [code.filterMap_landmark?, items_eq, Item.landmarks_append, List.cons_append]
  change Item.landmarks (program.scope.slots ++ body) ++ [.leave] = _
  rw [Item.landmarks_append, slots_eq, body_eq, List.nil_append]

/-! ## Source texts that compile -/

/-- The tokens of a source text end with the end of the file, which is no other token. -/
theorem exists_tokens
    (source : String) :
    ∃ tokens line, (Token.scan source).tokens = tokens ++ [⟨.endOfFile, line⟩] ∧
      ∀ token ∈ tokens, token.kind ≠ .endOfFile := by
  obtain ⟨pieces, tiles, -⟩ := Lexeme.exists_tiles [] source.toList
  refine ⟨_, _, (Lexeme.scan_of_tiles tiles).1, ?_⟩
  intro token listed
  obtain ⟨piece, present, found⟩ := List.mem_filterMap.1 listed
  obtain ⟨kind, kind_eq, rfl⟩ := Option.map_eq_some_iff.1 found
  cases tiles.stands piece present with
  | lexeme _ _ denotes =>
      generalize piece.outcome = outcome at denotes kind_eq
      generalize piece.text = text at denotes
      cases denotes <;> cases kind_eq <;> exact Token.Kind.noConfusion
  | stray _ _ _ outcome_eq =>
      rw [outcome_eq] at kind_eq
      cases kind_eq

/-- A source text that compiles has a derivation, and its lines are those of the code of the
program that is read. -/
theorem exists_derives_of_success
    {source : String}
    {limit : Nat}
    {lines : List String}
    (succeeds : compile source limit = .success lines) :
    ∃ tokens line tree tags code,
      (Token.scan source).tokens = tokens ++ [⟨.endOfFile, line⟩] ∧
      Grammar.Derives tokens tree ∧
      (Program.ofTokens (Token.scan source).tokens).1.generate tags = .ok code ∧
      code.lines = lines := by
  obtain ⟨tokens, line, tokens_eq, no_end⟩ := exists_tokens source
  obtain ⟨tags, breaches, -, ⟨clean, code, generated, ends⟩ | ⟨-, ends⟩⟩ := exists_compile source
  · have lines_eq := (ends limit).symm.trans succeeds
    have complaints_eq := (List.append_eq_nil_iff.1 (List.append_eq_nil_iff.1 clean).1).2
    rw [tokens_eq] at complaints_eq
    have errors_eq := Program.no_syntactic_iff.1 (by rw [complaints_eq]; simp)
    obtain ⟨tree, derives⟩ := Grammar.exists_derives_of_errors no_end errors_eq
    exact ⟨tokens, line, tree, tags, code, tokens_eq, derives, generated, by injection lines_eq⟩
  · rw [ends limit] at succeeds
    cases succeeds

/-- String literals survive from the source to the code.  A text that is written as a literal among
blanks and marks, outside of comments, is scanned to one string token with its bytes, without a
complaint.  In a source text that compiles, the literals are the strings that the program writes, in
order.  Each has one constant, whose escapes stand for its bytes and a zero byte, and one call that
prints this constant by its name and its size.  The calls stand where the statements do. -/
theorem string_literals_survive :
    (∀ text before after : String,
      (∀ character ∈ before.toList ++ after.toList, Lexeme.isSeparator character = true) ->
      Lexeme.LeavesComments before.toList ->
      (Token.scan (before ++ Lexeme.quotation text ++ after)).diagnostics = [] ∧
        ∃ front back : List Mark,
          (Token.scan (before ++ Lexeme.quotation text ++ after)).tokens.map Token.kind =
            front.map Token.Kind.mark ++ .text text.toUTF8.data.toList ::
              back.map Token.Kind.mark ++ [.endOfFile]) ∧
      ∀ (source : String) (limit : Nat) (lines : List String),
        compile source limit = .success lines ->
        ∃ tokens line tree, (Token.scan source).tokens = tokens ++ [⟨.endOfFile, line⟩] ∧
          Grammar.Derives tokens tree ∧
          Token.literals tokens = tree.body.texts ∧
          (∀ (number : Nat) (bytes : List UInt8), (Token.literals tokens)[number]? = some bytes ->
            ∃ size escaped,
              lines.filter (fun line => constantName? line = some ("@str_" ++ number.repr)) =
                [constantLine number size escaped] ∧
              decodeEscapes escaped.toList = some (bytes ++ [0]) ∧
              size = (bytes ++ [0]).length ∧
              (lines.filter isTextCall)[number]? = some (textCall number size)) ∧
          (lines.filter isTextCall).length = (Token.literals tokens).length ∧
          lines.filterMap landmark? = tree.body.outline 0 ++ [.leave] := by
  constructor
  · intro text before after separators leaves
    exact Lexeme.scan_quotation text separators leaves
  · intro source limit lines succeeds
    obtain ⟨tokens, line, tree, tags, code, tokens_eq, derives, generated, rfl⟩ :=
      exists_derives_of_success succeeds
    have readBack := Program.readsBack_of_derives derives line
    rw [← tokens_eq] at readBack
    have landmarks_eq :=
      (Program.wellFounded_ofTokens (Token.scan source).tokens).landmarks_eq readBack generated
    have calls_eq : code.lines.filter isTextCall =
        tree.body.texts.zipIdx.map fun entry => textCall entry.2 (entry.1.length + 1) := by
      rw [filter_isTextCall, landmarks_eq, Landmark.calls_append, Clause.calls_outline]
      exact List.append_nil _
    obtain ⟨-, -, -, -, -, texts_eq⟩ := Program.stmtCode_of_generate generated
    refine ⟨tokens, line, tree, tokens_eq, derives, derives.texts_eq, ?_, ?_, landmarks_eq⟩
    · intro number bytes found
      rw [derives.texts_eq] at found
      refine ⟨bytes.length + 1, TextConstant.escape bytes, ?_, ?_, by simp, ?_⟩
      · exact CodeModule.filter_lines texts_eq (readBack.texts_eq.symm ▸ found)
      · exact decodeEscapes_escape bytes
      · rw [calls_eq]
        simp [found]
    · rw [calls_eq, derives.texts_eq, List.length_map, List.length_zipIdx]

/-- A program that writes the same string twice and a number in between. -/
def echoSource : String := "program \x7b write \"a\"; write 1; write \"a\"; \x7d"

/-- A literal with a quote, a backslash and a line feed is scanned behind a comment.  The second of
two equal literals has the second constant, and the second call prints it. -/
theorem echo_literals_survive :
    ((Token.scan ("( //\n+" ++ Lexeme.quotation "\"\\\nα" ++ "), //")).diagnostics = [] ∧
        ∃ front back : List Mark,
          (Token.scan ("( //\n+" ++ Lexeme.quotation "\"\\\nα" ++ "), //")).tokens.map
              Token.kind =
            front.map Token.Kind.mark ++ .text "\"\\\nα".toUTF8.data.toList ::
              back.map Token.Kind.mark ++ [.endOfFile]) ∧
      ∃ lines escaped, compile echoSource 1 = .success lines ∧
        lines.filter (fun line => constantName? line = some ("@str_" ++ (1).repr)) =
          [constantLine 1 2 escaped] ∧
        decodeEscapes escaped.toList = some [97, 0] ∧
        (lines.filter isTextCall)[1]? = some (textCall 1 2) := by
  refine ⟨string_literals_survive.1 _ _ _ (List.all_eq_true.1 (by decide +kernel))
    (by decide +kernel), ?_⟩
  have isSuccess : (compile echoSource 1).isSuccess = true := by decide +kernel
  obtain ⟨lines, succeeds⟩ := Outcome.exists_of_isSuccess isSuccess
  obtain ⟨tokens, line, tree, tokens_eq, -, -, constants, -, -⟩ :=
    string_literals_survive.2 echoSource 1 lines succeeds
  have literals_eq : Token.literals tokens = [[97], [97]] := by
    have scanned_eq : Token.literals (Token.scan echoSource).tokens = [[97], [97]] := by
      decide +kernel
    rw [tokens_eq] at scanned_eq
    simpa [Token.text?] using scanned_eq
  obtain ⟨size, escaped, constant_eq, decoded, rfl, called⟩ :=
    constants 1 [97] (by rw [literals_eq]; rfl)
  exact ⟨lines, escaped, succeeds, constant_eq, decoded, called⟩

end MiniLang
