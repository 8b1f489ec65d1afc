import MiniLang.Proofs.Code.Layout
import MiniLang.Proofs.Tree.Readback
import MiniLang.Proofs.Tree.Reachability

/-!
# Landmarks

What a line of the generated text does to the flow of control, or to the outside: it parts two ways,
jumps, leaves, reads, or writes.  These landmarks are told from the words of a line.  Their order is
told by the syntax tree alone, since each construct leaves its own landmarks around those of its
parts.  A string that is written leaves a single one, the call that prints its constant, so the call
stands between the jumps of the constructs that enclose the statement.
-/

namespace MiniLang

/-- What a line does to the flow of control or to the outside.  The call that prints a string
constant is kept as it is spelled. -/
inductive Landmark where
  | fork
  | jump
  | leave
  | value
  | text (line : String)
  | input
  deriving DecidableEq, Repr

namespace CodeText

/-- The call that prints the string constant with a given number and size. -/
def textCall (number size : Nat) : String :=
  "  call i32 (ptr, ...) @printf(ptr getelementptr inbounds ([" ++ size.repr ++
    " x i8], ptr @str_" ++ number.repr ++ ", i32 0, i32 0))"

/-- The landmark of a line by words of its instruction: the first two, and the sixth and seventh,
which in a call name the routine and its first argument. -/
def landmarkOf (line : String) (first second sixth seventh : Option (List Char)) :
    Option Landmark :=
  if first = some "ret".toList then some .leave
  else if first = some "br".toList then
    if second = some "label".toList then some .jump else some .fork
  else if first = some "call".toList then
    if sixth = some "@scanf(ptr".toList then some .input
    else if seventh = some "getelementptr".toList then some (.text line)
    else some .value
  else none

/-- The landmark that a line is. -/
def landmark? (line : String) : Option Landmark :=
  (instruction? line).bind fun spelling =>
    landmarkOf line spelling.head? spelling[1]? spelling[5]? spelling[6]?

end CodeText

open CodeText

/-- The landmarks of an expression: a logical operator parts two ways and joins them. -/
def Term.outline : Term -> List Landmark
  | .unary _ _ operand => operand.outline
  | .binary _ op left right =>
      if op.family = .logical then
        left.outline ++ [.jump, .fork] ++ right.outline ++ [.jump, .jump]
      else left.outline ++ right.outline
  | .assign _ _ value => value.outline
  | _ => []

/-- The landmarks of a statement, where the given number of strings comes before its own. -/
def Clause.outline : Clause -> Nat -> List Landmark
  | .done, _ => []
  | .seq first rest, before => first.outline before ++ rest.outline (before + first.texts.length)
  | .block _ body, before => body.outline before
  | .expr _ value, _ => value.outline
  | .branch _ condition yes, before =>
      condition.outline ++ [.fork] ++ yes.outline before ++ [.jump, .jump]
  | .choice _ condition yes no, before =>
      condition.outline ++ [.fork] ++ yes.outline before ++ [.jump] ++
        no.outline (before + yes.texts.length) ++ [.jump]
  | .loop _ condition body, before =>
      [.jump] ++ condition.outline ++ [.fork] ++ body.outline before ++ [.jump]
  | .write _ value _, _ => value.outline ++ [.value]
  | .writeText _ bytes, before => [.text (textCall before (bytes.length + 1))]
  | .read _ _ _, _ => [.input]
  | .leave _, _ => [.leave]

/-- The landmark that a line of a routine is. -/
def Item.landmark? : Item -> Option Landmark
  | .instr (.fork _ _ _) => some .fork
  | .instr (.jump _) => some .jump
  | .instr .ret => some .leave
  | .instr (.print _ _ _) => some .value
  | .instr (.printSelected _) => some .value
  | .instr (.printText size number) => some (.text (textCall number size))
  | .instr (.scan _ _) => some .input
  | _ => none

/-- The landmarks of code. -/
def Item.landmarks (code : List Item) : List Landmark :=
  code.filterMap Item.landmark?

@[simp] theorem Item.landmarks_append
    (front back : List Item) :
    Item.landmarks (front ++ back) = Item.landmarks front ++ Item.landmarks back :=
  List.filterMap_append

namespace CodeText

/-- The words of a call. -/
theorem words_call
    {routine : String}
    (solid : Solid routine.toList)
    (arguments : String) :
    words ("call i32 (ptr, ...) " ++ routine ++ " " ++ arguments).toList =
      "call".toList :: "i32".toList :: "(ptr".toList :: [] :: "...)".toList :: routine.toList ::
        words arguments.toList := by
  have spelled : ("call i32 (ptr, ...) " ++ routine ++ " " ++ arguments).toList =
      "call".toList ++ ' ' :: ("i32".toList ++ ' ' :: ("(ptr".toList ++ ',' :: ([] ++ ' ' ::
        ("...)".toList ++ ' ' :: (routine.toList ++ ' ' :: arguments.toList))))) := by
    simp
  rw [spelled, words_append (by decide) rfl, words_append (by decide) rfl,
    words_append (by decide) rfl, words_append (by decide) rfl, words_append (by decide) rfl,
    words_append solid rfl]

theorem callPrint_eq
    (arguments : String) :
    Instr.callPrint arguments =
      "call i32 (ptr, ...) " ++ "@printf(ptr" ++ " " ++ (arguments ++ ")") := by
  have front_eq : "call i32 (ptr, ...) @printf(ptr " =
      "call i32 (ptr, ...) " ++ "@printf(ptr" ++ " " := by
    decide +kernel
  calc
    Instr.callPrint arguments = "call i32 (ptr, ...) @printf(ptr " ++ arguments ++ ")" := rfl
    _ = "call i32 (ptr, ...) " ++ "@printf(ptr" ++ " " ++ arguments ++ ")" := by rw [← front_eq]
    _ = _ := String.append_assoc

theorem scan_eq
    (template : Template)
    (variableName : String) :
    (Instr.scan template variableName).text =
      "call i32 (ptr, ...) " ++ "@scanf(ptr" ++ " " ++
        ("@" ++ template.name ++ ", ptr " ++ Instr.slot variableName ++ ")") := by
  have front_eq : "call i32 (ptr, ...) @scanf(ptr @" =
      "call i32 (ptr, ...) " ++ "@scanf(ptr" ++ " " ++ "@" := by
    decide +kernel
  have regrouped (first second third fourth fifth sixth : String) :
      first ++ second ++ third ++ fourth ++ fifth ++ sixth =
        first ++ (second ++ third ++ fourth ++ fifth ++ sixth) := by
    simp only [String.append_assoc]
  calc
    (Instr.scan template variableName).text =
        "call i32 (ptr, ...) @scanf(ptr @" ++ template.name ++ ", ptr " ++
          Instr.slot variableName ++ ")" := rfl
    _ = "call i32 (ptr, ...) " ++ "@scanf(ptr" ++ " " ++ "@" ++ template.name ++ ", ptr " ++
          Instr.slot variableName ++ ")" := by rw [← front_eq]
    _ = _ := regrouped ..

/-- A call of the print routine prints a string constant or a value, by its first argument. -/
theorem landmark?_callPrint
    {instr : Instr}
    {arguments : String}
    (spelled : instr.text = Instr.callPrint arguments) :
    landmark? (Item.instr instr).line =
      if (words (arguments ++ ")").toList)[0]? = some "getelementptr".toList then
        some (.text (Item.instr instr).line)
      else some .value := by
  rw [landmark?, instruction?_line, spelled, callPrint_eq, words_call (by decide)]
  change landmarkOf _ (some "call".toList) (some "i32".toList) (some "@printf(ptr".toList)
    (words (arguments ++ ")").toList)[0]? = _
  rw [landmarkOf, if_neg (by decide), if_neg (by decide), if_pos rfl, if_neg (by decide)]

theorem line_printText
    (size number : Nat) :
    (Item.instr (.printText size number)).line = textCall number size := by
  have front_eq : "  " ++ ("call i32 (ptr, ...) @printf(ptr " ++ ("getelementptr inbounds (" ++ "[")) =
      "  call i32 (ptr, ...) @printf(ptr getelementptr inbounds ([" := by
    decide +kernel
  have middle_eq : " x i8]" ++ (", ptr @" ++ "str_") = " x i8], ptr @str_" := by decide +kernel
  have back_eq : ", i32 0, i32 0)" ++ ")" = ", i32 0, i32 0))" := by decide +kernel
  have regrouped (a b c d e f g h i size number : String) :
      a ++ (b ++ (c ++ (d ++ size ++ e) ++ f ++ (g ++ number) ++ h) ++ i) =
        a ++ (b ++ (c ++ d)) ++ size ++ (e ++ (f ++ g)) ++ number ++ (h ++ i) := by
    simp only [String.append_assoc]
  refine (regrouped ..).trans ?_
  rw [front_eq, middle_eq, back_eq]
  rfl

/-- The first word starts as its text does. -/
theorem exists_words_of_head
    {character : Char}
    {text : List Char}
    (solid : isSeparator character = false)
    (opened : [character] <+: text) :
    ∃ first others, words text = (character :: first) :: others := by
  obtain ⟨rest, rfl⟩ := opened
  obtain ⟨first, others, -, split⟩ := exists_words_cons solid rest
  exact ⟨first, others, split⟩

/-- What starts neither as the end of a block nor as a call is no landmark. -/
theorem landmark?_of_head
    {instr : Instr}
    {character : Char}
    (opened : [character] <+: instr.text.toList)
    (solid : isSeparator character = false)
    (other : some character ∉ [some 'r', some 'b', some 'c']) :
    landmark? (Item.instr instr).line = none := by
  obtain ⟨first, others, split⟩ := exists_words_of_head solid opened
  have apart {word : List Char} (known : word.head? ∈ [some 'r', some 'b', some 'c']) :
      some (character :: first) ≠ some word := by
    intro equal
    rw [← Option.some.inj equal] at known
    exact other known
  rw [landmark?, instruction?_line, split]
  change landmarkOf _ (some (character :: first)) _ _ _ = none
  rw [landmarkOf, if_neg (apart (by decide)), if_neg (apart (by decide)),
    if_neg (apart (by decide))]

theorem landmark?_define
    {instr : Instr}
    {target : Register}
    {right : String}
    (spelled : instr.text = Instr.define target right) :
    landmark? (Item.instr instr).line = none := by
  have opened : ['%'] <+: (Instr.define target right).toList :=
    opens_append (opens_append (opens_append (by decide) _) _) _
  exact landmark?_of_head (spelled ▸ opened) (by decide) (by decide)

/-- A call of the print routine whose argument starts as no string constant does prints a value. -/
theorem landmark?_value
    {instr : Instr}
    {arguments : String}
    {character : Char}
    (spelled : instr.text = Instr.callPrint arguments)
    (opened : [character] <+: arguments.toList)
    (solid : isSeparator character = false)
    (other : character ≠ 'g') :
    landmark? (Item.instr instr).line = some .value := by
  obtain ⟨first, others, split⟩ := exists_words_of_head solid (opens_append opened ")")
  rw [landmark?_callPrint spelled, split, if_neg]
  intro equal
  exact other (congrArg List.head? (Option.some.inj equal) |> Option.some.inj)

/-- The line of an item is the landmark that the item is. -/
theorem landmark?_line
    (item : Item) :
    landmark? item.line = item.landmark? := by
  cases item with
  | label opened =>
      rw [landmark?, instruction?_label]
      rfl
  | instr instruction =>
      cases instruction with
      | alloca variableName type =>
          have opened : ['%'] <+: (Instr.alloca variableName type).text.toList :=
            opens_append (opens_append (opens_append (by decide) _) _) _
          exact landmark?_of_head opened (by decide) (by decide)
      | load target type variableName => exact landmark?_define rfl
      | store type value variableName =>
          have opened : ['s'] <+: (Instr.store type value variableName).text.toList :=
            opens_append (opens_append (opens_append (opens_append (opens_append
              (by decide) _) _) _) _) _
          exact landmark?_of_head opened (by decide) (by decide)
      | operate target operation left right => exact landmark?_define rfl
      | fneg target value => exact landmark?_define rfl
      | convert target conversion value => exact landmark?_define rfl
      | phi target first firstFrom second secondFrom => exact landmark?_define rfl
      | select target condition yes no => exact landmark?_define rfl
      | print template type value =>
          have opened : ['@'] <+:
              ("@" ++ template.name ++ ", " ++ type.codeName ++ " " ++ value.text).toList :=
            opens_append (opens_append (opens_append (opens_append (opens_append
              (by decide) _) _) _) _) _
          exact landmark?_value rfl opened (by decide) (by decide)
      | printSelected format =>
          have opened : ['%'] <+: format.text.toList := opens_append (by decide) _
          exact landmark?_value rfl opened (by decide) (by decide)
      | printText size number =>
          have split (rest : String) : (words ("getelementptr inbounds (" ++ rest).toList)[0]? =
              some "getelementptr".toList := by
            have spelled : ("getelementptr inbounds (" ++ rest).toList =
                "getelementptr".toList ++ ' ' :: ("inbounds (".toList ++ rest.toList) := by
              simp
            rw [spelled, words_append (by decide) rfl]
            rfl
          rw [landmark?_callPrint rfl, if_pos, line_printText]
          · rfl
          · simp only [String.append_assoc]
            exact split _
      | scan template variableName =>
          rw [landmark?, instruction?_line, scan_eq, words_call (by decide)]
          change landmarkOf _ (some "call".toList) (some "i32".toList) (some "@scanf(ptr".toList)
            _ = _
          rw [landmarkOf, if_neg (by decide), if_neg (by decide), if_pos rfl, if_pos rfl]
          rfl
      | jump target =>
          rw [landmark?, instruction?_line, words_jump]
          rfl
      | fork condition yes no =>
          rw [landmark?, instruction?_line, words_fork]
          rfl
      | ret => decide

end CodeText

namespace Lowering

open Forest

section Code

variable {context : Context} {forest : Forest}
  {registers labels registers' labels' : Nat} {code : List Item}

theorem CoercionCode.landmarks_eq
    {value result : Operand}
    {type wanted : ValueType}
    (coerced : CoercionCode value type wanted registers code result registers') :
    Item.landmarks code = [] := by
  cases coerced <;> rfl

theorem UnaryCode.landmarks_eq
    {op : UnaryOp}
    {type : ValueType}
    {value result : Operand}
    (applied : UnaryCode op type value registers code result registers') :
    Item.landmarks code = [] := by
  cases applied with
  | applied lowered => cases lowered <;> rfl
  | kept => rfl

theorem PrintCode.landmarks_eq
    {value : Operand}
    {format : Format}
    {type : ValueType}
    (printed : PrintCode value registers format type code registers') :
    Item.landmarks code = [.value] := by
  cases printed <;> rfl

theorem landmarks_logicalOpening
    (op : BinaryOp)
    (left : Operand)
    (labels : Nat) :
    Item.landmarks (logicalOpening op left labels) = [.jump, .fork] := by
  unfold logicalOpening decision
  split <;> rfl

/-- The code of an expression has the landmarks of its syntax tree. -/
theorem ExprCode.landmarks_eq
    (wellFounded : forest.WellFounded)
    {id : ExprId}
    {term : Term}
    {operand : Operand}
    (held : forest.HoldsTerm id term)
    (emitted : ExprCode context (forest.expr id) registers labels code operand registers' labels') :
    Item.landmarks code = term.outline := by
  induction held generalizing registers labels code operand registers' labels' with
  | name found | int found | double found | bool found =>
      rw [wellFounded.expr_eq found] at emitted
      cases emitted
      rfl
  | unary found _ operandHypothesis =>
      rw [wellFounded.expr_eq found] at emitted
      cases emitted with
      | unary _ _ _ _ operandCode unaryCode =>
          rw [Item.landmarks_append, operandHypothesis operandCode, unaryCode.landmarks_eq,
            List.append_nil, Term.outline]
  | binary found _ _ leftHypothesis rightHypothesis =>
      rw [wellFounded.expr_eq found] at emitted
      cases emitted with
      | binary _ _ plain _ _ _ leftEmitted rightEmitted _ leftCoerced rightCoerced =>
          simp only [Item.landmarks_append, leftHypothesis leftEmitted,
            rightHypothesis rightEmitted, leftCoerced.landmarks_eq, rightCoerced.landmarks_eq,
            Term.outline, if_neg plain, List.append_nil]
          exact List.append_nil _
      | logical _ _ logical _ _ _ leftEmitted rightEmitted =>
          simp only [Item.landmarks_append, leftHypothesis leftEmitted,
            rightHypothesis rightEmitted, landmarks_logicalOpening, Term.outline, if_pos logical]
          rfl
  | assign found _ valueHypothesis =>
      rw [wellFounded.expr_eq found] at emitted
      cases emitted with
      | assign _ _ _ _ valueCode _ _ coerced =>
          simp only [Item.landmarks_append, valueHypothesis valueCode, coerced.landmarks_eq,
            Term.outline, List.append_nil]
          exact List.append_nil _

/-- The code of a single statement is that of a sequence of one. -/
theorem stmtCode_singleton
    {id : StmtId} :
    StmtCode context (forest.sequence [id]) registers labels code registers' labels' ↔
      StmtCode context (forest.stmt id) registers labels code registers' labels' := by
  constructor
  · intro emitted
    cases emitted with
    | seq firstEmitted restEmitted =>
        cases restEmitted
        rwa [List.append_nil]
  · intro emitted
    have single := StmtCode.seq emitted (.done registers' labels')
    rwa [List.append_nil] at single

/-- The code of statements has the landmarks of their syntax tree. -/
theorem StmtCode.landmarks_eq
    (wellFounded : forest.WellFounded)
    (texts_eq : context.texts = forest.texts)
    {extent : Grammar.Extent}
    {before : Nat}
    {ids : List StmtId}
    {clause : Clause}
    (held : forest.HoldsClause extent before ids clause)
    (emitted : StmtCode context (forest.sequence ids) registers labels code registers' labels') :
    Item.landmarks code = clause.outline before := by
  induction held generalizing registers labels code registers' labels' with
  | done before =>
      cases emitted
      rfl
  | seq _ _ firstHypothesis restHypothesis =>
      cases emitted with
      | seq firstEmitted restEmitted =>
          rw [Item.landmarks_append, firstHypothesis (stmtCode_singleton.2 firstEmitted),
            restHypothesis restEmitted, Clause.outline]
  | block found _ bodyHypothesis =>
      rw [stmtCode_singleton, wellFounded.stmt_eq found] at emitted
      cases emitted with
      | block _ bodyEmitted => exact bodyHypothesis bodyEmitted
  | expr found valueHeld =>
      rw [stmtCode_singleton, wellFounded.stmt_eq found] at emitted
      cases emitted with
      | expr _ valueEmitted => exact valueEmitted.landmarks_eq wellFounded valueHeld
  | branch found conditionHeld _ yesHypothesis =>
      rw [stmtCode_singleton, wellFounded.stmt_eq found] at emitted
      cases emitted with
      | branch _ testEmitted yesEmitted noEmitted =>
          cases noEmitted
          simp only [Item.landmarks_append, testEmitted.landmarks_eq wellFounded conditionHeld,
            yesHypothesis (stmtCode_singleton.2 yesEmitted), Clause.outline, List.append_assoc]
          rfl
  | choice found conditionHeld _ _ yesHypothesis noHypothesis =>
      rw [stmtCode_singleton, wellFounded.stmt_eq found] at emitted
      cases emitted with
      | branch _ testEmitted yesEmitted noEmitted =>
          simp only [Item.landmarks_append, testEmitted.landmarks_eq wellFounded conditionHeld,
            yesHypothesis (stmtCode_singleton.2 yesEmitted),
            noHypothesis (stmtCode_singleton.2 noEmitted), Clause.outline]
          rfl
  | loop found conditionHeld _ bodyHypothesis =>
      rw [stmtCode_singleton, wellFounded.stmt_eq found] at emitted
      cases emitted with
      | loop _ testEmitted bodyEmitted =>
          simp only [Item.landmarks_append, testEmitted.landmarks_eq wellFounded conditionHeld,
            bodyHypothesis (stmtCode_singleton.2 bodyEmitted), Clause.outline]
          rfl
  | write found valueHeld =>
      rw [stmtCode_singleton, wellFounded.stmt_eq found] at emitted
      cases emitted with
      | write _ _ valueEmitted print =>
          rw [Item.landmarks_append, valueEmitted.landmarks_eq wellFounded valueHeld,
            print.landmarks_eq, Clause.outline]
  | writeText found kept =>
      rw [stmtCode_singleton, wellFounded.stmt_eq found] at emitted
      cases emitted with
      | writeText _ _ _ constantFound =>
          rw [texts_eq, TextPool.get?, kept] at constantFound
          cases constantFound
          rfl
  | read found =>
      rw [stmtCode_singleton, wellFounded.stmt_eq found] at emitted
      cases emitted
      rfl
  | leave found =>
      rw [stmtCode_singleton, wellFounded.stmt_eq found] at emitted
      cases emitted
      rfl

end Code

end Lowering

end MiniLang
