import Mathlib.Data.List.Pairwise
import MiniLang.Proofs.Code.Agreement
import MiniLang.Proofs.Code.Blocks

/-!
# Typed code

The instructions of a routine have typing rules of their own, which know nothing of the program that
the routine comes from.  A register has the type that its definition gives it, a slot the type with
which it was reserved, and a format takes the values that the conversions in its text ask for.

The code of a well typed program keeps these rules.  The generator takes the types that it writes
from several places: the declaration of a variable, the tag of an operand, the common type of two
operands, or its own text.  That they agree is shown along the rules for emitted code, together with
the fact that the operand of an expression has the type of its tag.
-/

namespace MiniLang

/-- The types of what registers hold: values, or the addresses of formats. -/
inductive CodeType where
  | value (type : ValueType)
  | address
  deriving DecidableEq, Repr

/-- The types of the values that a format for printing asks for, in order. -/
def printedTypes : List Char -> List ValueType
  | '%' :: 'd' :: rest => .int :: printedTypes rest
  | '%' :: 'X' :: rest => .int :: printedTypes rest
  | '%' :: 'f' :: rest => .double :: printedTypes rest
  | _ :: rest => printedTypes rest
  | [] => []

/-- The types of the slots that a format for scanning asks for, in order. -/
def scannedTypes : List Char -> List ValueType
  | '%' :: 'd' :: rest => .int :: scannedTypes rest
  | '%' :: 'X' :: rest => .int :: scannedTypes rest
  | '%' :: 'l' :: 'f' :: rest => .double :: scannedTypes rest
  | _ :: rest => scannedTypes rest
  | [] => []

/-- The register that an instruction defines, and the type that it gives it. -/
def Instr.definition? : Instr -> Option (Register × CodeType)
  | .load target type _ => some (target, .value type)
  | .operate target operation _ _ => some (target, .value operation.resultType)
  | .fneg target _ => some (target, .value .double)
  | .convert target conversion _ => some (target, .value conversion.result)
  | .phi target _ _ _ _ => some (target, .value .bool)
  | .select target _ _ _ => some (target, .address)
  | _ => none

/-- The type of an operand, where registers have given types.  A literal has the type that its
spelling belongs to. -/
inductive Operand.Typed (types : Register -> CodeType -> Prop) : Operand -> CodeType -> Prop where
  | register {number : Register} {type : CodeType} (defined : types number type) :
      Typed types (.register number) type
  | int (value : Int32) : Typed types (.int value) (.value .int)
  | double (bits : UInt64) : Typed types (.double bits) (.value .double)
  | bool (value : Bool) : Typed types (.bool value) (.value .bool)

/-- The typing rules of the instructions, where registers and slots have given types. -/
inductive Instr.Typed (types : Register -> CodeType -> Prop) (slots : String -> ValueType -> Prop) :
    Instr -> Prop where
  | alloca {name : String} {type : ValueType} (slot : slots name type) :
      Typed types slots (.alloca name type)
  | load {target : Register} {type : ValueType} {name : String} (slot : slots name type) :
      Typed types slots (.load target type name)
  | store {type : ValueType} {value : Operand} {name : String}
      (typed : value.Typed types (.value type)) (slot : slots name type) :
      Typed types slots (.store type value name)
  /-- Calculations that are not those on reals take integers and truth values. -/
  | calculate {target : Register} {calculation : Calculation} {type : ValueType}
      {left right : Operand} (whole : type ≠ .double)
      (leftTyped : left.Typed types (.value type)) (rightTyped : right.Typed types (.value type)) :
      Typed types slots (.operate target (.calculate calculation type) left right)
  | calculateReal {target : Register} {calculation : RealCalculation} {left right : Operand}
      (leftTyped : left.Typed types (.value .double))
      (rightTyped : right.Typed types (.value .double)) :
      Typed types slots (.operate target (.calculateReal calculation) left right)
  | compare {target : Register} {comparison : Comparison} {type : ValueType}
      {left right : Operand} (whole : type ≠ .double)
      (leftTyped : left.Typed types (.value type)) (rightTyped : right.Typed types (.value type)) :
      Typed types slots (.operate target (.compare comparison type) left right)
  | compareReal {target : Register} {comparison : Comparison} {left right : Operand}
      (leftTyped : left.Typed types (.value .double))
      (rightTyped : right.Typed types (.value .double)) :
      Typed types slots (.operate target (.compareReal comparison) left right)
  | fneg {target : Register} {value : Operand} (typed : value.Typed types (.value .double)) :
      Typed types slots (.fneg target value)
  | convert {target : Register} {conversion : Conversion} {value : Operand}
      (typed : value.Typed types (.value conversion.source)) :
      Typed types slots (.convert target conversion value)
  | phi {target : Register} {first second : Operand} {firstFrom secondFrom : Label}
      (firstTyped : first.Typed types (.value .bool))
      (secondTyped : second.Typed types (.value .bool)) :
      Typed types slots (.phi target first firstFrom second secondFrom)
  /-- Formats are chosen only between such as ask for no value. -/
  | select {target : Register} {condition : Operand} {yes no : Template}
      (typed : condition.Typed types (.value .bool))
      (yesAlone : printedTypes yes.text.toList = []) (noAlone : printedTypes no.text.toList = []) :
      Typed types slots (.select target condition yes no)
  | print {template : Template} {type : ValueType} {value : Operand}
      (asked : printedTypes template.text.toList = [type])
      (typed : value.Typed types (.value type)) :
      Typed types slots (.print template type value)
  | printSelected {format : Register} (chosen : types format .address) :
      Typed types slots (.printSelected format)
  | printText (size number : Nat) : Typed types slots (.printText size number)
  | scan {template : Template} {type : ValueType} {name : String}
      (asked : scannedTypes template.text.toList = [type]) (slot : slots name type) :
      Typed types slots (.scan template name)
  | jump (target : Label) : Typed types slots (.jump target)
  | fork {condition : Operand} {yes no : Label} (typed : condition.Typed types (.value .bool)) :
      Typed types slots (.fork condition yes no)
  | ret : Typed types slots .ret

/-- An item of a list defines a register with a type. -/
def Defines (items : List Item) (register : Register) (type : CodeType) : Prop :=
  ∃ instr, .instr instr ∈ items ∧ instr.definition? = some (register, type)

/-- An item of a list reserves a slot with a type. -/
def Reserves (items : List Item) (name : String) (type : ValueType) : Prop :=
  .instr (.alloca name type) ∈ items

/-- The items of a routine are well typed: a register is defined once and so has one type, a variable
has one slot, and every instruction keeps the typing rules. -/
structure WellTypedItems (items : List Item) : Prop where
  defined_once : (items.filterMap Item.defined?).Nodup
  register_unique : ∀ register first second,
    Defines items register first -> Defines items register second -> first = second
  slot_unique : ∀ name first second,
    Reserves items name first -> Reserves items name second -> first = second
  typed : ∀ instr, .instr instr ∈ items -> instr.Typed (Defines items) (Reserves items)

section Rules

variable {types : Register -> CodeType -> Prop} {slots : String -> ValueType -> Prop}

/-- The types of registers cover the definitions in some code. -/
def Covers (types : Register -> CodeType -> Prop) (code : List Item) : Prop :=
  ∀ register type, Defines code register type -> types register type

/-- All instructions of some code keep the typing rules. -/
def Obeys (types : Register -> CodeType -> Prop) (slots : String -> ValueType -> Prop)
    (code : List Item) : Prop :=
  ∀ instr, .instr instr ∈ code -> instr.Typed types slots

@[simp] theorem covers_append
    {first second : List Item} :
    Covers types (first ++ second) ↔ Covers types first ∧ Covers types second := by
  simp only [Covers, Defines, List.mem_append]
  grind

/-- A covered register has the type of its definition. -/
theorem Covers.register
    {code : List Item}
    {instr : Instr}
    {number : Register}
    {type : CodeType}
    (covers : Covers types code)
    (present : .instr instr ∈ code)
    (defines : instr.definition? = some (number, type)) :
    (Operand.register number).Typed types type :=
  .register (covers number type ⟨instr, present, defines⟩)

@[simp] theorem obeys_nil : Obeys types slots [] :=
  fun _ present => absurd present List.not_mem_nil

@[simp] theorem obeys_append
    {first second : List Item} :
    Obeys types slots (first ++ second) ↔ Obeys types slots first ∧ Obeys types slots second := by
  simp only [Obeys, List.mem_append]
  grind

@[simp] theorem obeys_instr
    {instr : Instr}
    {rest : List Item} :
    Obeys types slots (.instr instr :: rest) ↔ instr.Typed types slots ∧ Obeys types slots rest := by
  simp [Obeys]

@[simp] theorem obeys_label
    {label : Label}
    {rest : List Item} :
    Obeys types slots (.label label :: rest) ↔ Obeys types slots rest := by
  simp [Obeys]

end Rules

namespace Lowering

variable {types : Register -> CodeType -> Prop} {slots : String -> ValueType -> Prop}
variable {context : Context} {registers labels registers' labels' : Nat} {code : List Item}

/-- An operand that is brought to a type which takes its own has that type. -/
theorem CoercionCode.typed
    {value result : Operand}
    {type wanted : ValueType}
    (coerced : CoercionCode value type wanted registers code result registers')
    (takes : wanted.Takes type)
    (valueTyped : value.Typed types (.value type))
    (covers : Covers types code) :
    Obeys types slots code ∧ result.Typed types (.value wanted) := by
  cases coerced with
  | promoted =>
      refine ⟨obeys_instr.2 ⟨.convert valueTyped, obeys_nil⟩, ?_⟩
      exact covers.register (List.mem_singleton.2 rfl) rfl
  | kept _ fits =>
      cases takes with
      | same => exact ⟨obeys_nil, valueTyped⟩
      | widened => exact absurd ⟨rfl, rfl⟩ fits

/-- The common type of two types takes both. -/
theorem takes_of_commonType
    {left right type : ValueType}
    (common : commonType? left right = some type) :
    type.Takes left ∧ type.Takes right := by
  cases left <;> cases right <;> simp [commonType?, ValueType.isNumeric] at common <;>
    subst common <;> constructor <;> constructor

/-- The operation of an infix operator keeps the typing rules on the type that it was chosen for. -/
theorem typed_operation
    {op : BinaryOp}
    {type : ValueType}
    {operation : Operation}
    {left right : Operand}
    (lowered : operation? op type = some operation)
    (leftTyped : left.Typed types (.value type))
    (rightTyped : right.Typed types (.value type))
    (target : Register) :
    (Instr.operate target operation left right).Typed types slots := by
  cases type with
  | double =>
      cases op <;> cases lowered
      all_goals first
        | exact .calculateReal leftTyped rightTyped
        | exact .compareReal leftTyped rightTyped
  | _ =>
      cases op <;> cases lowered
      all_goals first
        | exact .calculate (by decide) leftTyped rightTyped
        | exact .compare (by decide) leftTyped rightTyped

/-- A prefix operator turns an operand of a type into one of the type that comes of it. -/
theorem UnaryCode.typed
    {op : UnaryOp}
    {type resultType : ValueType}
    {value result : Operand}
    (applied : UnaryCode op type value registers code result registers')
    (turns : op.Turns type resultType)
    (valueTyped : value.Typed types (.value type))
    (covers : Covers types code) :
    Obeys types slots code ∧ result.Typed types (.value resultType) := by
  cases applied with
  | applied lowered =>
      refine ⟨obeys_instr.2 ⟨?_, obeys_nil⟩, covers.register (List.mem_singleton.2 rfl) ?_⟩
      · cases lowered with
        | negInt => exact .calculate (by decide) (.int 0) valueTyped
        | negDouble => exact .fneg valueTyped
        | bitNot => exact .calculate (by decide) valueTyped (.int (-1))
        | not => exact .calculate (by decide) valueTyped (.bool true)
        | truncate | extend | promote => exact .convert valueTyped
      · cases lowered <;> cases turns <;> rfl
  | kept identity =>
      cases identity <;> cases turns <;> exact ⟨obeys_nil, valueTyped⟩

/-- Deciding a logical operator takes a truth value. -/
theorem typed_decision
    (op : BinaryOp)
    {value : Operand}
    (valueTyped : value.Typed types (.value .bool))
    (joined right : Label) :
    (decision op value joined right).Typed types slots := by
  unfold decision
  split <;> exact .fork valueTyped

/-- The slots of the declared variables have the declared types. -/
def Context.Places (context : Context) (slots : String -> ValueType -> Prop) : Prop :=
  ∀ name declaration, context.scope.lookup name = some declaration -> slots name declaration.type

/-- The code of an expression keeps the typing rules, and its operand has the type of the
expression. -/
theorem ExprCode.typed
    {expression : Expr}
    {type : ValueType}
    {operand : Operand}
    (emitted : ExprCode context expression registers labels code operand registers' labels')
    (checks : context.Checks expression type)
    (places : context.Places slots)
    (covers : Covers types code) :
    Obeys types slots code ∧ operand.Typed types (.value type) := by
  induction emitted generalizing type with
  | int site value =>
      obtain ⟨⟨⟩, _⟩ := checks
      exact ⟨obeys_nil, .int value⟩
  | double site bits =>
      obtain ⟨⟨⟩, _⟩ := checks
      exact ⟨obeys_nil, .double bits⟩
  | bool site value =>
      obtain ⟨⟨⟩, _⟩ := checks
      exact ⟨obeys_nil, .bool value⟩
  | @name site spelling registers labels tagged declaration _ found =>
      have type_eq : declaration.type = type :=
        (Expr.HasType.name site found).unique checks.typed
      subst type_eq
      refine ⟨obeys_instr.2 ⟨.load (places spelling declaration found), obeys_nil⟩, ?_⟩
      exact covers.register (List.mem_singleton.2 rfl) rfl
  | assign site target tagged valueTagged valueCode found accepts coerced inductionHypothesis =>
      obtain ⟨⟨covers_value, covers_coercion⟩, _⟩ := by simpa only [covers_append] using covers
      have valueChecks := checks.value valueTagged
      have takes := ValueType.accepts_iff.1 accepts
      have type_eq := (Expr.HasType.assign site valueChecks.typed found takes).unique checks.typed
      obtain ⟨obeys_value, valueTyped⟩ := inductionHypothesis valueChecks covers_value
      obtain ⟨obeys_coercion, storedTyped⟩ := coerced.typed takes valueTyped covers_coercion
      refine ⟨?_, type_eq ▸ storedTyped⟩
      simp only [obeys_append, obeys_instr, obeys_nil, and_true]
      exact ⟨⟨obeys_value, obeys_coercion⟩, .store storedTyped (places _ _ found)⟩
  | unary site op tagged operandTagged operandCode unaryCode inductionHypothesis =>
      obtain ⟨covers_operand, covers_applied⟩ := covers_append.1 covers
      have operandChecks := checks.operand operandTagged
      obtain ⟨obeys_operand, valueTyped⟩ := inductionHypothesis operandChecks covers_operand
      cases checks.typed with
      | unary _ operandTyped turns =>
          rw [operandTyped.unique operandChecks.typed] at turns
          obtain ⟨obeys_applied, resultTyped⟩ := unaryCode.typed turns valueTyped covers_applied
          exact ⟨obeys_append.2 ⟨obeys_operand, obeys_applied⟩, resultTyped⟩
  | binary site op plain tagged leftTagged rightTagged leftEmitted rightEmitted common leftCoerced
      rightCoerced lowered result_eq leftHypothesis rightHypothesis =>
      have type_eq := (checks.of_tagged tagged).typed.unique checks.typed
      have covers_result := covers.register (List.mem_append_right _ (List.mem_singleton.2 rfl)) rfl
      simp only [covers_append] at covers
      obtain ⟨⟨⟨⟨covers_left, covers_right⟩, covers_leftCoercion⟩, covers_rightCoercion⟩, _⟩ :=
        covers
      obtain ⟨leftChecks, rightChecks⟩ := checks.operands leftTagged rightTagged
      obtain ⟨takes_left, takes_right⟩ := takes_of_commonType common
      obtain ⟨obeys_left, leftTyped⟩ := leftHypothesis leftChecks covers_left
      obtain ⟨obeys_right, rightTyped⟩ := rightHypothesis rightChecks covers_right
      obtain ⟨obeys_leftCoercion, leftTyped⟩ :=
        leftCoerced.typed takes_left leftTyped covers_leftCoercion
      obtain ⟨obeys_rightCoercion, rightTyped⟩ :=
        rightCoerced.typed takes_right rightTyped covers_rightCoercion
      refine ⟨?_, type_eq ▸ result_eq ▸ covers_result⟩
      simp only [obeys_append, obeys_instr, obeys_nil, and_true]
      exact ⟨⟨⟨⟨obeys_left, obeys_right⟩, obeys_leftCoercion⟩, obeys_rightCoercion⟩,
        typed_operation lowered leftTyped rightTyped _⟩
  | logical site op logical tagged leftTagged rightTagged leftEmitted rightEmitted leftHypothesis
      rightHypothesis =>
      have covers_result :=
        covers.register (List.mem_append_right _ (List.mem_of_getLast? rfl)) rfl
      simp only [covers_append] at covers
      obtain ⟨⟨⟨covers_left, _⟩, covers_right⟩, _⟩ := covers
      obtain ⟨leftChecks, rightChecks⟩ := checks.operands leftTagged rightTagged
      obtain ⟨obeys_left, leftTyped⟩ := leftHypothesis leftChecks covers_left
      obtain ⟨obeys_right, rightTyped⟩ := rightHypothesis rightChecks covers_right
      have type_eq := (Expr.HasType.binary site leftChecks.typed rightChecks.typed
        (.logical logical)).unique checks.typed
      refine ⟨?_, type_eq ▸ covers_result⟩
      simp only [obeys_append, logicalOpening, logicalClosing, obeys_instr, obeys_label, obeys_nil,
        and_true]
      exact ⟨⟨⟨obeys_left, .jump _, typed_decision op leftTyped _ _⟩, obeys_right⟩, .jump _, .jump _,
        .phi (.bool _) rightTyped⟩

/-- Printing an operand keeps the typing rules: its format asks for a value of its type, or for
none. -/
theorem PrintCode.typed
    {format : Format}
    {type : ValueType}
    {value : Operand}
    (printed : PrintCode value registers format type code registers')
    (valueTyped : value.Typed types (.value type))
    (covers : Covers types code) :
    Obeys types slots code := by
  cases printed with
  | int | hex | double => exact obeys_instr.2 ⟨.print (by decide) valueTyped, obeys_nil⟩
  | bool =>
      have chosen : types (registers + 1) .address :=
        covers _ _ ⟨_, List.mem_cons_self, rfl⟩
      simp only [obeys_instr, obeys_nil, and_true]
      exact ⟨.select valueTyped (by decide) (by decide), .printSelected chosen⟩

/-- The operand of an expression has the type of the expression. -/
theorem ExprCode.operand_typed
    {expression : Expr}
    {type : ValueType}
    {operand : Operand}
    (emitted : ExprCode context expression registers labels code operand registers' labels')
    (checks : context.Checks expression type) :
    operand.Typed (fun _ _ => True) (.value type) := by
  have places : context.Places fun _ _ => True := fun _ _ _ => trivial
  exact (emitted.typed checks places fun _ _ _ => trivial).2

/-- The format that scans a variable asks for a slot of its type. -/
theorem ScanTemplate.scannedTypes_eq
    {format : Format}
    {type : ValueType}
    {template : Template}
    (scan : ScanTemplate format type template) :
    scannedTypes template.text.toList = [type] := by
  cases scan <;> decide

/-- The code of a well typed statement keeps the typing rules. -/
theorem StmtCode.typed
    {statement : Stmt}
    (emitted : StmtCode context statement registers labels code registers' labels')
    (typed : statement.WellTyped context.scope)
    (holds : context.tags.Holds (statement.marks context.scope))
    (places : context.Places slots)
    (covers : Covers types code) :
    Obeys types slots code := by
  induction emitted with
  | done => exact obeys_nil
  | seq firstEmitted restEmitted firstHypothesis restHypothesis =>
      obtain ⟨covers_first, covers_rest⟩ := covers_append.1 covers
      obtain ⟨first_holds, rest_holds⟩ := TagTable.holds_append.1 holds
      cases typed with
      | seq firstTyped restTyped =>
          exact obeys_append.2 ⟨firstHypothesis firstTyped first_holds covers_first,
            restHypothesis restTyped rest_holds covers_rest⟩
  | block line emitted inductionHypothesis =>
      cases typed with
      | block _ bodyTyped => exact inductionHypothesis bodyTyped holds covers
  | expr line emitted =>
      cases typed with
      | expr _ valueTyped => exact (emitted.typed ⟨valueTyped, holds⟩ places covers).1
  | branch line testEmitted yesEmitted noEmitted yesHypothesis noHypothesis =>
      simp only [covers_append] at covers
      obtain ⟨⟨⟨⟨⟨covers_test, _⟩, covers_yes⟩, _⟩, covers_no⟩, _⟩ := covers
      obtain ⟨above_hold, no_holds⟩ := TagTable.holds_append.1 holds
      obtain ⟨test_holds, yes_holds⟩ := TagTable.holds_append.1 above_hold
      cases typed with
      | branch _ conditionTyped yesTyped noTyped =>
          obtain ⟨obeys_test, testTyped⟩ :=
            testEmitted.typed ⟨conditionTyped, test_holds⟩ places covers_test
          simp only [obeys_append, obeys_instr, obeys_label, obeys_nil, and_true]
          exact ⟨⟨⟨⟨⟨obeys_test, .fork testTyped⟩, yesHypothesis yesTyped yes_holds covers_yes⟩,
            .jump _⟩, noHypothesis noTyped no_holds covers_no⟩, .jump _⟩
  | loop line testEmitted bodyEmitted inductionHypothesis =>
      simp only [covers_append] at covers
      obtain ⟨⟨⟨⟨_, covers_test⟩, _⟩, covers_body⟩, _⟩ := covers
      obtain ⟨test_holds, body_holds⟩ := TagTable.holds_append.1 holds
      cases typed with
      | loop _ conditionTyped bodyTyped =>
          obtain ⟨obeys_test, testTyped⟩ :=
            testEmitted.typed ⟨conditionTyped, test_holds⟩ places covers_test
          simp only [obeys_append, obeys_instr, obeys_label, obeys_nil, and_true]
          exact ⟨⟨⟨⟨.jump _, obeys_test⟩, .fork testTyped⟩,
            inductionHypothesis bodyTyped body_holds covers_body⟩, .jump _⟩
  | write line tagged emitted print =>
      obtain ⟨covers_value, covers_print⟩ := covers_append.1 covers
      cases typed with
      | write _ valueTyped writes =>
          have checks : context.Checks _ _ := ⟨valueTyped, holds⟩
          obtain ⟨obeys_value, operandTyped⟩ :=
            emitted.typed (checks.of_tagged tagged) places covers_value
          exact obeys_append.2 ⟨obeys_value, print.typed operandTyped covers_print⟩
  | writeText line registers labels found => exact obeys_instr.2 ⟨.printText _ _, obeys_nil⟩
  | read line registers labels found scan =>
      exact obeys_instr.2 ⟨.scan scan.scannedTypes_eq (places _ _ found), obeys_nil⟩
  | leave line registers labels =>
      exact obeys_instr.2 ⟨.ret, obeys_label.2 obeys_nil⟩

end Lowering

/-- An instruction that gives a register a type defines the register. -/
theorem Instr.defined?_of_definition
    {instr : Instr}
    {register : Register}
    {type : CodeType}
    (defines : instr.definition? = some (register, type)) :
    instr.defined? = some register := by
  cases instr <;> cases defines <;> rfl

/-- Where no register is defined twice, no register has two types. -/
theorem Defines.unique
    {items : List Item}
    (once : (items.filterMap Item.defined?).Nodup)
    {register : Register}
    {first second : CodeType}
    (firstDefined : Defines items register first)
    (secondDefined : Defines items register second) :
    first = second := by
  obtain ⟨firstInstr, first_mem, first_eq⟩ := firstDefined
  obtain ⟨secondInstr, second_mem, second_eq⟩ := secondDefined
  by_cases same : firstInstr = secondInstr
  · rw [← same, first_eq, Option.some.injEq, Prod.mk.injEq] at second_eq
    exact second_eq.2
  · -- Two instructions at different places would define the register twice.
    have distinct := List.pairwise_filterMap.1 once
    have symmetric : Std.Symm fun item other : Item => ∀ number, item.defined? = some number ->
        ∀ number', other.defined? = some number' -> number ≠ number' :=
      ⟨fun _ _ apart _ found _ found' equal => apart _ found' _ found equal.symm⟩
    have apart := distinct.forall first_mem second_mem (by simpa using same)
    exact absurd rfl (apart register (Instr.defined?_of_definition first_eq) register
      (Instr.defined?_of_definition second_eq))

namespace Program.WellFounded

variable {program : Program} {tags : TagTable} {code : CodeModule}

/-- The items of an accepted program keep the typing rules for all types of slots that agree with
the declarations, and for the types that the definitions give to registers. -/
theorem obeys_items
    (wellFounded : program.WellFounded)
    (accepts : program.check = .ok (tags, []))
    (generated : program.generate tags = .ok code)
    {slots : String -> ValueType -> Prop}
    (places : (program.context tags).Places slots) :
    Obeys (Defines code.items) slots code.items := by
  obtain ⟨typed, holds⟩ := wellFounded.accepted accepts
  obtain ⟨body, registers, labels, emitted, items_eq, -⟩ := Program.stmtCode_of_generate generated
  have covers : Covers (Defines code.items) body := by
    rintro register type ⟨instr, present, defines⟩
    exact ⟨instr, by simp [items_eq, present], defines⟩
  have obeys_slots : Obeys (Defines code.items) slots program.scope.slots := by
    intro instr present
    obtain ⟨declaration, declared, instr_eq⟩ := List.mem_map.1 present
    cases instr_eq
    exact .alloca (places _ _ (wellFounded.consistent_scope.lookup_eq_some_iff.2 ⟨declared, rfl⟩))
  generalize Defines code.items = types at covers obeys_slots ⊢
  rw [items_eq, List.cons_append, List.cons_append, obeys_label, obeys_append, obeys_append,
    obeys_instr]
  exact ⟨⟨obeys_slots, emitted.typed typed holds places covers⟩, .ret, obeys_nil⟩

/-- The items of an accepted program are well typed. -/
theorem wellTypedItems
    (wellFounded : program.WellFounded)
    (accepts : program.check = .ok (tags, []))
    (generated : program.generate tags = .ok code) :
    WellTypedItems code.items := by
  obtain ⟨registers, labels, blocks, routine⟩ := Program.exists_routine generated
  have once : (code.items.filterMap Item.defined?).Nodup := by
    rw [routine.defined_eq]
    exact List.nodup_range'
  refine ⟨once, fun _ _ _ => Defines.unique once, ?_, ?_⟩
  · -- Every reserved slot belongs to a declaration, and a name has one declaration.
    have declared : ∀ name type, Reserves code.items name type ->
        (program.scope.lookup name).map Declaration.type = some type := by
      intro name type reserved
      have places : (program.context tags).Places fun name type =>
          (program.scope.lookup name).map Declaration.type = some type := by
        intro name declaration found
        exact Option.map_eq_some_iff.2 ⟨declaration, found, rfl⟩
      cases wellFounded.obeys_items accepts generated places _ reserved with
      | alloca slot => exact slot
    intro name first second firstReserved secondReserved
    have equal := (declared name first firstReserved).symm.trans (declared name second secondReserved)
    exact Option.some.inj equal
  · refine wellFounded.obeys_items accepts generated ?_
    intro name declaration found
    obtain ⟨body, _, _, _, items_eq, -⟩ := Program.stmtCode_of_generate generated
    obtain ⟨declared, rfl⟩ := wellFounded.consistent_scope.lookup_eq_some_iff.1 found
    have present := List.mem_map_of_mem
      (f := fun declaration => Item.instr (.alloca declaration.name declaration.type)) declared
    rw [Reserves, items_eq]
    exact List.mem_append_left _ (List.mem_append_left _ (List.mem_cons_of_mem _ present))

end Program.WellFounded

/-- For a well-founded program that checking accepts without diagnostics, code is generated whose
items are well typed.  The operand that the generator returns for an expression of the program, from
whatever state, has the type of the tag that checking gave to the expression. -/
theorem generated_code_well_typed
    {program : Program}
    {tags : TagTable}
    (wellFounded : program.WellFounded)
    (accepts : program.check = .ok (tags, [])) :
    (∃ code, program.generate tags = .ok code ∧ WellTypedItems code.items) ∧
    ∀ id, program.ReachesExpr id ->
      ∃ type, tags.get? id = some (.value type) ∧
        ∀ lowering : Lowering, ∃ operand final added,
          (Lowering.expr (program.context tags) (program.forest.expr id)).run lowering =
            .ok (operand, final) ∧
          final.items.toList = lowering.items.toList ++ added ∧
          operand.Typed (Defines added) (.value type) := by
  constructor
  · obtain ⟨code, generated⟩ := wellFounded.exists_generate accepts
    exact ⟨code, generated, wellFounded.wellTypedItems accepts generated⟩
  · intro id reached
    obtain ⟨typed, holds⟩ := wellFounded.accepted accepts
    obtain ⟨⟨type, exprTyped⟩, exprHolds⟩ := reached.typed wellFounded.forest typed holds
    refine ⟨type, ?_, fun lowering => ?_⟩
    · rw [exprHolds.own wellFounded.forest (reached.known wellFounded.forest), exprTyped.tag_eq]
    · have checks : (program.context tags).Checks (program.forest.expr id) type :=
        ⟨exprTyped, exprHolds⟩
      have places : (program.context tags).Places fun _ _ => True := fun _ _ _ => trivial
      obtain ⟨⟨operand, final⟩, ran⟩ := Lowering.total_expr checks.typed checks.holds lowering
      obtain ⟨added, adds, emitted⟩ := Lowering.exprCode_of_run _ ran
      have operandTyped := (emitted.typed checks places fun _ _ defined => defined).2
      exact ⟨operand, final, added, ran, adds, operandTyped⟩

/-- A program that keeps in a variable whether one is less than two and a half, and writes it. -/
def storedComparison : Program :=
  let one := (Forest.empty.addExpr 1 (.int 1)).2
  let both := (one.addExpr 1 (.double 0x4004000000000000)).2
  let compared := (both.addExpr 1 (.binary .lt 0 1)).2
  let stored := (compared.addExpr 1 (.assign ⟨"b", 1⟩ 2)).2
  let named := (stored.addExpr 2 (.name "b")).2
  let assigned := (named.addStmt 1 (.expr 3)).2
  (Program.assemble [⟨"b", .bool, 1⟩] [0, 1] (assigned.addStmt 2 (.write 4 .plain)).2).1

/-- The code of the comparison is well typed, and the assignment, whose tag is that of truth values,
has an operand of that type. -/
theorem storedComparison_well_typed :
    storedComparison.WellFounded ∧ ∃ tags code, storedComparison.check = .ok (tags, []) ∧
      storedComparison.generate tags = .ok code ∧ WellTypedItems code.items ∧
      tags.get? 3 = some (.value .bool) ∧
      ∃ operand final, (Lowering.expr (storedComparison.context tags)
          (storedComparison.forest.expr 3)).run {} = .ok (operand, final) ∧
        operand.Typed (Defines final.items.toList) (.value .bool) := by
  have built : storedComparison.Built := by
    refine .assemble _ _ _ (.addStmt 2 _ (.addStmt 1 _ (.addExpr 2 _ (.addExpr 1 _ (.addExpr 1 _
      (.addExpr 1 _ (.addExpr 1 _ .empty ?_) ?_) ?_) ?_) ?_) ?_ ?_ rfl) ?_ ?_ rfl) ?_
    all_goals decide
  have accepts : ∃ tags, storedComparison.check = .ok (tags, []) ∧
      tags.get? 3 = some (.value .bool) := ⟨_, rfl, rfl⟩
  obtain ⟨tags, checked, tagged⟩ := accepts
  obtain ⟨⟨code, generated, typed⟩, operands⟩ :=
    generated_code_well_typed built.wellFounded checked
  have reached : storedComparison.ReachesExpr 3 :=
    .value (.body List.mem_cons_self) rfl (List.mem_singleton.2 rfl)
  obtain ⟨type, tagged', given⟩ := operands 3 reached
  have type_eq : some (Tag.value type) = some (.value .bool) := tagged'.symm.trans tagged
  cases type_eq
  obtain ⟨operand, final, added, ran, adds, operandTyped⟩ := given {}
  have added_eq : final.items.toList = added := adds
  exact ⟨built.wellFounded, tags, code, checked, generated, typed, tagged, operand, final, ran,
    added_eq ▸ operandTyped⟩

end MiniLang
