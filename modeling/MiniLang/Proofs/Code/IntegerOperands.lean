import MiniLang.Proofs.Code.IntegerWords
import MiniLang.Proofs.Code.Tallies
import MiniLang.Proofs.Code.TypedCode

/-!
# Integer literals as operands

Which integers the instructions of a syntax tree have, and in which order.  Some of them are literals
of the tree, taken as operands; the others belong to the instructions: an integer is negated by
subtracting it from zero, and its bits are inverted by the number whose bits are all set.  A literal
that is made a real is the operand of the instruction that does so, so it is handed on by an
assignment only to a variable that is no real.
-/

namespace MiniLang

/-! ## Integers of a syntax tree -/

/-- The integer that a token stands for, if it is an integer literal. -/
def Token.Kind.int? : Token.Kind -> Option Int32
  | .int value => some value
  | _ => none

/-- The integer literals of an expression, in order. -/
def Term.ints (term : Term) : List Int32 :=
  term.leaves.filterMap Token.Kind.int?

/-- The integer literals of a statement, in order. -/
def Clause.ints (clause : Clause) : List Int32 :=
  clause.leaves.filterMap Token.Kind.int?

/-- An integer in the code: a literal of the source text, or a number that belongs to the
instruction. -/
inductive Immediate where
  | literal (value : Int32)
  | fixed (value : Int32)
  deriving DecidableEq, Repr

namespace Immediate

def value : Immediate -> Int32
  | .literal value => value
  | .fixed value => value

def literal? : Immediate -> Option Int32
  | .literal value => some value
  | .fixed _ => none

end Immediate

namespace Term

variable (scope : Scope)

/-- The type of an expression. -/
def type? : Term -> Option ValueType
  | .name _ spelling => (scope.lookup spelling).map Declaration.type
  | .int _ _ => some .int
  | .double _ _ => some .double
  | .bool _ _ => some .bool
  | .unary _ op operand => operand.type?.bind op.result?
  | .binary _ op left right => left.type?.bind fun leftType => right.type?.bind (op.result? leftType)
  | .assign _ target _ => (scope.lookup target.name).map Declaration.type

/-- The integer literal that is the value of an expression: the expression itself, or what it casts
to the type of integers or assigns to a variable that is no real. -/
def ownInt : Term -> List Int32
  | .int _ value => [value]
  | .unary _ .toInt operand => operand.ownInt
  | .assign _ target value =>
      if (scope.lookup target.name).map Declaration.type = some .double then [] else value.ownInt
  | _ => []

end Term

/-- The integers in the instruction of a prefix operator on an operand of a type, which takes the
given literals.  A cast to the type of integers takes none. -/
def UnaryOp.immediates (type? : Option ValueType) (taken : List Immediate) :
    UnaryOp -> List Immediate
  | .neg => if type? = some .int then .fixed 0 :: taken else taken
  | .bitNot => taken ++ [.fixed (-1)]
  | .toInt => []
  | .not => taken
  | .toDouble => taken

/-- The literals that an instruction takes which takes the value of an expression. -/
def Term.takenInts (scope : Scope) (term : Term) : List Immediate :=
  (term.ownInt scope).map .literal

/-- The integers in the instructions of an expression, in order. -/
def Term.immediates (scope : Scope) : Term -> List Immediate
  | .unary _ op operand =>
      operand.immediates scope ++ op.immediates (operand.type? scope) (operand.takenInts scope)
  | .binary _ _ left right =>
      left.immediates scope ++ right.immediates scope ++ left.takenInts scope ++ right.takenInts scope
  | .assign _ _ value => value.immediates scope ++ value.takenInts scope
  | _ => []

/-- The integers in the instructions of an expression and of what prints it; a string is addressed by
two zeros, and the program returns a zero. -/
def intTally (scope : Scope) : Tally Immediate where
  inside := Term.immediates scope
  taken := Term.takenInts scope
  text := [.fixed 0, .fixed 0]
  leave := [.fixed 0]

/-- The integers in the instructions of a program, in order. -/
def SyntaxTree.immediates (tree : SyntaxTree) : List Immediate :=
  tree.body.tally (intTally (Scope.empty.declareAll tree.declarations).1) ++ [.fixed 0]

@[simp] theorem Immediate.map_value_literal
    (ints : List Int32) :
    (ints.map literal).map value = ints := by
  rw [List.map_map]
  exact List.map_id ints

@[simp] theorem Term.map_value_takenInts
    (scope : Scope)
    (term : Term) :
    (term.takenInts scope).map Immediate.value = term.ownInt scope :=
  Immediate.map_value_literal _

/-- The literals among integers of the code. -/
def Immediate.literals (immediates : List Immediate) : List Int32 :=
  immediates.filterMap literal?

@[simp] theorem Immediate.literals_append
    (front back : List Immediate) :
    literals (front ++ back) = literals front ++ literals back :=
  List.filterMap_append

@[simp] theorem Term.literals_takenInts
    (scope : Scope)
    (term : Term) :
    Immediate.literals (term.takenInts scope) = term.ownInt scope := by
  rw [Term.takenInts, Immediate.literals, List.filterMap_map]
  exact List.filterMap_some

/-- A prefix operator takes no literals other than those given. -/
theorem UnaryOp.literals_immediates
    (op : UnaryOp)
    (type? : Option ValueType)
    (taken : List Immediate) :
    Immediate.literals (op.immediates type? taken) ⊆ Immediate.literals taken := by
  cases op with
  | neg =>
      rw [UnaryOp.immediates]
      split <;> exact List.Subset.refl _
  | bitNot =>
      rw [UnaryOp.immediates, Immediate.literals_append]
      exact List.append_subset.2 ⟨List.Subset.refl _, List.nil_subset _⟩
  | toInt => exact List.nil_subset _
  | not | toDouble => exact List.Subset.refl _

/-- What the instructions of an expression take, and what is left for its value, are literals of the
expression. -/
theorem Term.subset_ints
    (scope : Scope)
    (term : Term) :
    Immediate.literals (term.immediates scope) ⊆ term.ints ∧ term.ownInt scope ⊆ term.ints := by
  induction term with
  | name | double | bool => exact ⟨List.Subset.refl _, List.Subset.refl _⟩
  | int => exact ⟨List.nil_subset _, List.Subset.refl _⟩
  | unary _ op operand inductionHypothesis =>
      obtain ⟨inside, own⟩ := inductionHypothesis
      constructor
      · have taken := op.literals_immediates (operand.type? scope) (operand.takenInts scope)
        rw [Term.literals_takenInts] at taken
        rw [Term.immediates, Immediate.literals_append, List.append_subset]
        exact ⟨inside, List.Subset.trans taken own⟩
      · cases op with
        | toInt => exact own
        | _ => exact List.nil_subset _
  | binary _ _ left right leftHypothesis rightHypothesis =>
      obtain ⟨leftInside, leftOwn⟩ := leftHypothesis
      obtain ⟨rightInside, rightOwn⟩ := rightHypothesis
      have ints_eq (line : Line) (op : BinaryOp) :
          (Term.binary line op left right).ints = left.ints ++ right.ints :=
        List.filterMap_append
      refine ⟨?_, List.nil_subset _⟩
      simp only [ints_eq, Term.immediates, Immediate.literals_append, Term.literals_takenInts,
        List.append_subset]
      exact ⟨⟨⟨List.subset_append_of_subset_left _ leftInside,
        List.subset_append_of_subset_right _ rightInside⟩,
        List.subset_append_of_subset_left _ leftOwn⟩,
        List.subset_append_of_subset_right _ rightOwn⟩
  | assign _ target value inductionHypothesis =>
      obtain ⟨inside, own⟩ := inductionHypothesis
      constructor
      · rw [Term.immediates, Immediate.literals_append, Term.literals_takenInts,
          List.append_subset]
        exact ⟨inside, own⟩
      · rw [Term.ownInt]
        split
        · exact List.nil_subset _
        · exact own

/-- The instructions of a statement take no literals other than its own. -/
theorem Clause.literals_tally_subset
    (scope : Scope)
    (clause : Clause) :
    Immediate.literals (clause.tally (intTally scope)) ⊆ clause.ints := by
  refine clause.filterMap_tally_subset (fun term => ?_) (fun term => ?_) rfl rfl
  · exact (term.subset_ints scope).1
  · have own := (term.subset_ints scope).2
    rwa [← term.literals_takenInts scope] at own

/-- The type of a syntax tree is that of the expression. -/
theorem Forest.HoldsTerm.type?_eq
    {forest : Forest}
    (wellFounded : forest.WellFounded)
    {scope : Scope}
    {id : ExprId}
    {term : Term}
    {type : ValueType}
    (held : forest.HoldsTerm id term)
    (typed : (forest.expr id).HasType scope type) :
    term.type? scope = some type := by
  induction held generalizing type with
  | int found | double found | bool found =>
      rw [wellFounded.expr_eq found] at typed
      cases typed
      rfl
  | name found =>
      rw [wellFounded.expr_eq found] at typed
      cases typed with
      | name _ declared => rw [Term.type?, declared, Option.map_some]
  | unary found _ operandHypothesis =>
      rw [wellFounded.expr_eq found] at typed
      cases typed with
      | unary _ operandTyped turns =>
          rw [Term.type?, operandHypothesis operandTyped, Option.bind_some]
          exact UnaryOp.result?_eq_some_iff.2 turns
  | binary found _ _ leftHypothesis rightHypothesis =>
      rw [wellFounded.expr_eq found] at typed
      cases typed with
      | binary _ leftTyped rightTyped combines =>
          rw [Term.type?, leftHypothesis leftTyped, rightHypothesis rightTyped, Option.bind_some,
            Option.bind_some]
          exact BinaryOp.result?_eq_some_iff.2 combines
  | assign found _ _ =>
      rw [wellFounded.expr_eq found] at typed
      cases typed with
      | assign _ _ declared _ => rw [Term.type?, declared, Option.map_some]

/-! ## Integers of the emitted code -/

/-- An operand of another type is no integer. -/
theorem Operand.Typed.ints_eq_nil
    {types : Register -> CodeType -> Prop}
    {operand : Operand}
    {type : ValueType}
    (typed : operand.Typed types (.value type))
    (other : type ≠ .int) :
    operand.ints = [] := by
  cases typed with
  | int => exact absurd rfl other
  | _ => rfl

namespace Lowering

variable {types : Register -> CodeType -> Prop} {context : Context} {forest : Forest}
  {registers labels registers' labels' : Nat} {code : List Item}

/-- An operand that is brought to a type is taken once, by the conversion or by what takes the
result. -/
theorem CoercionCode.ints_eq
    {value result : Operand}
    {type wanted : ValueType}
    (coerced : CoercionCode value type wanted registers code result registers')
    (typed : value.Typed types (.value type)) :
    code.flatMap Item.ints ++ result.ints = value.ints ∧
      result.ints = if wanted = .double then [] else value.ints := by
  cases coerced with
  | promoted => simp [Item.ints, Instr.operands]
  | kept _ fits =>
      refine ⟨rfl, ?_⟩
      split
      · next wanted_eq => exact typed.ints_eq_nil fun type_eq => fits ⟨type_eq, wanted_eq⟩
      · rfl

/-- A cast to the type of integers hands on an operand that is an integer; all other prefix operators
take it. -/
theorem UnaryCode.ints_eq
    {op : UnaryOp}
    {type : ValueType}
    {value result : Operand}
    (applied : UnaryCode op type value registers code result registers')
    (typed : value.Typed types (.value type)) :
    code.flatMap Item.ints =
        (op.immediates (some type) (value.ints.map .literal)).map Immediate.value ∧
      result.ints = if op = .toInt then value.ints else [] := by
  cases applied with
  | applied lowered =>
      cases lowered with
      | negInt | bitNot | promote =>
          simp [-List.map_map, Item.ints, Instr.operands, UnaryOp.immediates, Immediate.value]
      | negDouble | not | truncate | extend =>
          have silent := typed.ints_eq_nil (by decide)
          simp [Item.ints, Instr.operands, UnaryOp.immediates, silent]
  | kept identity =>
      cases identity with
      | int => exact ⟨rfl, rfl⟩
      | double =>
          have silent := typed.ints_eq_nil (by decide)
          simp [UnaryOp.immediates, silent]

/-- Printing takes the operand that is printed. -/
theorem PrintCode.ints_eq
    {value : Operand}
    {format : Format}
    {type : ValueType}
    (printed : PrintCode value registers format type code registers') :
    code.flatMap Item.ints = value.ints := by
  cases printed <;> simp [Item.ints, Instr.operands]

theorem ints_logicalOpening
    (op : BinaryOp)
    (left : Operand)
    (labels : Nat) :
    (logicalOpening op left labels).flatMap Item.ints = left.ints := by
  unfold logicalOpening decision
  split <;> simp [Item.ints, Instr.operands]

theorem ints_logicalClosing
    (op : BinaryOp)
    (right : Operand)
    (registers labels : Nat) :
    (logicalClosing op right registers labels).flatMap Item.ints = right.ints := by
  simp [logicalClosing, Item.ints, Instr.operands]

/-- Two operands that are brought to a common type are taken in their order: where one of them is
converted before the instruction, the other one is no integer. -/
theorem ints_coerced
    {leftCode rightCode : List Item}
    {left right leftOperand rightOperand : Operand}
    {leftType rightType type : ValueType}
    {registers₁ registers₂ registers₃ : Nat}
    (common : commonType? leftType rightType = some type)
    (leftCoerced : CoercionCode left leftType type registers₁ leftCode leftOperand registers₂)
    (rightCoerced : CoercionCode right rightType type registers₂ rightCode rightOperand registers₃)
    (leftTyped : left.Typed types (.value leftType))
    (rightTyped : right.Typed types (.value rightType)) :
    leftCode.flatMap Item.ints ++ rightCode.flatMap Item.ints ++
      (leftOperand.ints ++ rightOperand.ints) = left.ints ++ right.ints := by
  -- The conversions of both operands stand before the instruction, so the order of the operands is
  -- kept only because at most one of them is converted.
  cases leftCoerced with
  | promoted =>
      have silent : right.ints = [] := by
        cases rightType <;> cases common
        exact rightTyped.ints_eq_nil (by decide)
      cases rightCoerced with
      | promoted => cases common
      | kept => simp [Item.ints, Instr.operands, silent]
  | kept =>
      cases rightCoerced with
      | kept => rfl
      | promoted =>
          have silent : left.ints = [] := by
            cases leftType <;> cases common
            exact leftTyped.ints_eq_nil (by decide)
          simp [Item.ints, Instr.operands, silent]

/-- The code of an expression has the integers of its syntax tree, and its operand is an integer
literal only where that is the value of the expression. -/
theorem ExprCode.ints_eq
    (wellFounded : forest.WellFounded)
    {id : ExprId}
    {term : Term}
    {type : ValueType}
    {operand : Operand}
    (held : forest.HoldsTerm id term)
    (checks : context.Checks (forest.expr id) type)
    (emitted : ExprCode context (forest.expr id) registers labels code operand registers' labels') :
    code.flatMap Item.ints = (term.immediates context.scope).map Immediate.value ∧
      operand.ints = term.ownInt context.scope := by
  induction held generalizing registers labels code operand registers' labels' type with
  | name found | int found | double found | bool found =>
      rw [wellFounded.expr_eq found] at emitted
      cases emitted
      exact ⟨rfl, rfl⟩
  | @unary id operandId line op operandTerm found operandHeld operandHypothesis =>
      rw [wellFounded.expr_eq found] at emitted checks
      cases emitted with
      | unary _ _ _ operandTagged operandCode unaryCode =>
          have operandChecks := checks.operand operandTagged
          obtain ⟨code_eq, value_eq⟩ := operandHypothesis operandChecks operandCode
          obtain ⟨applied_eq, result_eq⟩ :=
            unaryCode.ints_eq (operandCode.operand_typed operandChecks)
          rw [List.flatMap_append, code_eq, applied_eq, result_eq, value_eq, Term.immediates,
            operandHeld.type?_eq wellFounded operandChecks.typed, List.map_append]
          refine ⟨rfl, ?_⟩
          cases op <;> rfl
  | binary found _ _ leftHypothesis rightHypothesis =>
      rw [wellFounded.expr_eq found] at emitted checks
      cases emitted with
      | binary _ _ _ _ leftTagged rightTagged leftEmitted rightEmitted common leftCoerced
          rightCoerced =>
          obtain ⟨leftChecks, rightChecks⟩ := checks.operands leftTagged rightTagged
          obtain ⟨left_eq, leftValue_eq⟩ := leftHypothesis leftChecks leftEmitted
          obtain ⟨right_eq, rightValue_eq⟩ := rightHypothesis rightChecks rightEmitted
          have taken := ints_coerced common leftCoerced rightCoerced
            (leftEmitted.operand_typed leftChecks) (rightEmitted.operand_typed rightChecks)
          refine ⟨?_, rfl⟩
          have own (target : Register) (operation : Operation) (first second : Operand) :
              [Item.instr (.operate target operation first second)].flatMap Item.ints =
                first.ints ++ second.ints := by
            simp [Item.ints, Instr.operands]
          simp only [List.append_assoc] at taken
          simp only [List.flatMap_append, left_eq, right_eq, own, List.append_assoc, taken,
            Term.immediates, List.map_append, Term.map_value_takenInts, leftValue_eq, rightValue_eq]
      | logical _ _ _ _ leftTagged rightTagged leftEmitted rightEmitted =>
          obtain ⟨leftChecks, rightChecks⟩ := checks.operands leftTagged rightTagged
          obtain ⟨left_eq, leftValue_eq⟩ := leftHypothesis leftChecks leftEmitted
          obtain ⟨right_eq, rightValue_eq⟩ := rightHypothesis rightChecks rightEmitted
          have leftSilent := (leftEmitted.operand_typed leftChecks).ints_eq_nil (by decide)
          refine ⟨?_, rfl⟩
          simp only [List.flatMap_append, left_eq, right_eq, ints_logicalOpening,
            ints_logicalClosing, Term.immediates, List.map_append, Term.map_value_takenInts,
            ← leftValue_eq, ← rightValue_eq, leftSilent, List.append_nil]
  | assign found _ valueHypothesis =>
      rw [wellFounded.expr_eq found] at emitted checks
      cases emitted with
      | assign _ _ _ valueTagged valueCode declared _ coerced =>
          have valueChecks := checks.value valueTagged
          obtain ⟨code_eq, value_eq⟩ := valueHypothesis valueChecks valueCode
          obtain ⟨taken, stored_eq⟩ := coerced.ints_eq (valueCode.operand_typed valueChecks)
          have own (type : ValueType) (stored : Operand) (name : String) :
              [Item.instr (.store type stored name)].flatMap Item.ints = stored.ints := by
            simp [Item.ints, Instr.operands]
          constructor
          · rw [List.flatMap_append, List.flatMap_append, own, List.append_assoc, taken, code_eq,
              value_eq, Term.immediates, List.map_append, Term.map_value_takenInts]
          · rw [stored_eq, value_eq, Term.ownInt, declared, Option.map_some]
            simp only [Option.some.injEq]

/-- The integers of code are told by their tally. -/
theorem tallyOf_ints
    (wellFounded : forest.WellFounded) :
    TallyOf context forest Item.ints (intTally context.scope) Immediate.value where
  label _ := rfl
  alloca _ _ := rfl
  jump _ := rfl
  scan _ _ := rfl
  printText _ _ := rfl
  ret := rfl
  expr := by
    rintro term type code operand ⟨id, _, _, _, _, held, checks, emitted⟩
    exact (emitted.ints_eq wellFounded held checks).1
  fork := by
    rintro term code test yes no ⟨id, _, _, _, _, held, checks, emitted⟩
    have silent := (emitted.operand_typed checks).ints_eq_nil (by decide)
    simp [Item.ints, Instr.operands, silent]
  print := by
    rintro term type type' code printed operand format _ _ ⟨id, _, _, _, _, held, checks, emitted⟩
      print
    rw [print.ints_eq, (emitted.ints_eq wellFounded held checks).2]
    exact (term.map_value_takenInts context.scope).symm

end Lowering

open CodeText

/-- The lines of an accepted program write the integers of its syntax tree. -/
theorem Program.WellFounded.flatMap_lineNumbers
    {program : Program}
    {tags : TagTable}
    {code : CodeModule}
    {tree : SyntaxTree}
    (wellFounded : program.WellFounded)
    (readBack : program.ReadsBack tree)
    (accepts : program.check = .ok (tags, []))
    (generated : program.generate tags = .ok code)
    (solid : ∀ item ∈ code.items, ∀ name, item.slotName? = some name -> Solid name.toList) :
    code.lines.flatMap lineNumbers =
      tree.immediates.map fun immediate => immediate.value.toInt := by
  have gathered := wellFounded.flatMap_gather (Lowering.tallyOf_ints wellFounded.forest) readBack
    accepts generated
  have scope_eq : (program.context tags).scope =
      (Scope.empty.declareAll tree.declarations).1 := by
    rw [← readBack.declarations_eq]
    exact wellFounded.scope_eq
  rw [scope_eq] at gathered
  rw [code.flatMap_lineNumbers solid, gathered, List.map_map]
  rfl

/-- The literals that the instructions of a program take are its own. -/
theorem SyntaxTree.literals_immediates_subset
    (tree : SyntaxTree) :
    Immediate.literals tree.immediates ⊆ tree.body.ints := by
  rw [SyntaxTree.immediates, Immediate.literals_append, List.append_subset]
  exact ⟨tree.body.literals_tally_subset _, List.nil_subset _⟩

end MiniLang
