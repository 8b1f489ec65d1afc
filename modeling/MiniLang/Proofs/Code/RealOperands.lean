import MiniLang.Proofs.Code.RealWords
import MiniLang.Proofs.Code.Tallies
import MiniLang.Proofs.Code.TypedCode

/-!
# Real literals as operands

Which real literals of a syntax tree become operands of instructions, and in which order.  A literal
is an operand of the instruction that takes its value.  A cast to the type of reals leaves a real as
it is, and an assignment hands on what it stores, so a literal may be taken by more than one
instruction, or by none if its value is dropped.
-/

namespace MiniLang

/-! ## Literals of a syntax tree -/

/-- The bit pattern that a token stands for, if it is a real literal. -/
def Token.Kind.real? : Token.Kind -> Option UInt64
  | .real bits => some bits
  | _ => none

/-- The real literals of an expression, in order. -/
def Term.reals (term : Term) : List UInt64 :=
  term.leaves.filterMap Token.Kind.real?

/-- The real literals of a statement, in order. -/
def Clause.reals (clause : Clause) : List UInt64 :=
  clause.leaves.filterMap Token.Kind.real?

/-- The real literal that is the value of an expression: the expression itself, or what it casts to
the type of reals or assigns. -/
def Term.immediate : Term -> List UInt64
  | .double _ bits => [bits]
  | .unary _ .toDouble operand => operand.immediate
  | .assign _ _ value => value.immediate
  | _ => []

/-- The real literals that the instructions of an expression take, in order.  A cast to the type of
reals has no instruction for an operand that is real. -/
def Term.realOperands : Term -> List UInt64
  | .unary _ .toDouble operand => operand.realOperands
  | .unary _ _ operand => operand.realOperands ++ operand.immediate
  | .binary _ _ left right =>
      left.realOperands ++ right.realOperands ++ left.immediate ++ right.immediate
  | .assign _ _ value => value.realOperands ++ value.immediate
  | _ => []

/-- The real literals that the instructions of an expression take, and the one that what prints it
takes. -/
def realTally : Tally UInt64 where
  inside := Term.realOperands
  taken := Term.immediate
  text := []
  leave := []

/-- The real literals that the instructions of a statement take, in order. -/
def Clause.realOperands (clause : Clause) : List UInt64 :=
  clause.tally realTally

/-- What the instructions of an expression take, and what is left for its value, are literals of the
expression. -/
theorem Term.subset_reals
    (term : Term) :
    term.realOperands ⊆ term.reals ∧ term.immediate ⊆ term.reals := by
  induction term with
  | name | int | bool => exact ⟨List.Subset.refl _, List.Subset.refl _⟩
  | double => exact ⟨List.nil_subset _, List.Subset.refl _⟩
  | unary _ op _ inductionHypothesis =>
      obtain ⟨operands, own⟩ := inductionHypothesis
      cases op with
      | toDouble => exact ⟨operands, own⟩
      | _ => exact ⟨List.append_subset.2 ⟨operands, own⟩, List.nil_subset _⟩
  | binary _ _ left right leftHypothesis rightHypothesis =>
      obtain ⟨leftOperands, leftOwn⟩ := leftHypothesis
      obtain ⟨rightOperands, rightOwn⟩ := rightHypothesis
      have reals_eq (line : Line) (op : BinaryOp) :
          (Term.binary line op left right).reals = left.reals ++ right.reals :=
        List.filterMap_append
      refine ⟨?_, List.nil_subset _⟩
      simp only [reals_eq, Term.realOperands, List.append_subset]
      exact ⟨⟨⟨List.subset_append_of_subset_left _ leftOperands,
        List.subset_append_of_subset_right _ rightOperands⟩,
        List.subset_append_of_subset_left _ leftOwn⟩,
        List.subset_append_of_subset_right _ rightOwn⟩
  | assign _ _ _ inductionHypothesis =>
      obtain ⟨operands, own⟩ := inductionHypothesis
      exact ⟨List.append_subset.2 ⟨operands, own⟩, own⟩

/-- The instructions of a statement take no reals other than its literals. -/
theorem Clause.realOperands_subset
    (clause : Clause) :
    clause.realOperands ⊆ clause.reals := by
  have among : (clause.tally realTally).filterMap some ⊆ clause.reals := by
    refine clause.filterMap_tally_subset (fun term => ?_) (fun term => ?_) rfl rfl
    · rw [List.filterMap_some]
      exact term.subset_reals.1
    · rw [List.filterMap_some]
      exact term.subset_reals.2
  rwa [List.filterMap_some] at among

/-! ## Operands of the emitted code -/

/-- An operand of another type is no real. -/
theorem Operand.Typed.reals_eq_nil
    {types : Register -> CodeType -> Prop}
    {operand : Operand}
    {type : ValueType}
    (typed : operand.Typed types (.value type))
    (other : type ≠ .double) :
    operand.reals = [] := by
  cases typed with
  | double => exact absurd rfl other
  | _ => rfl

namespace Lowering

variable {types : Register -> CodeType -> Prop} {context : Context} {forest : Forest}
  {registers labels registers' labels' : Nat} {code : List Item}

/-- Bringing an operand to a type takes no real, and hands on the operand if it is one. -/
theorem CoercionCode.reals_eq
    {value result : Operand}
    {type wanted : ValueType}
    (coerced : CoercionCode value type wanted registers code result registers')
    (typed : value.Typed types (.value type)) :
    Item.realsOf code = [] ∧ result.reals = value.reals := by
  cases coerced with
  | kept => exact ⟨rfl, rfl⟩
  | promoted =>
      have silent := typed.reals_eq_nil (by decide)
      have code_eq : Item.realsOf [.instr (.convert (registers + 1) .sitofp value)] =
          value.reals ++ [] ++ [] := rfl
      rw [code_eq, silent]
      exact ⟨rfl, rfl⟩

/-- A cast to the type of reals hands on an operand that is a real; all other prefix operators take
it. -/
theorem UnaryCode.reals_eq
    {op : UnaryOp}
    {type : ValueType}
    {value result : Operand}
    (applied : UnaryCode op type value registers code result registers')
    (typed : value.Typed types (.value type)) :
    Item.realsOf code = (if op = .toDouble then [] else value.reals) ∧
      result.reals = if op = .toDouble then value.reals else [] := by
  cases applied with
  | applied lowered =>
      cases lowered with
      | promote =>
          have silent := typed.reals_eq_nil (by decide)
          simp [Item.realsOf, Item.reals, Instr.operands, silent]
          rfl
      | _ => simp [Item.realsOf, Item.reals, Instr.operands, Operand.reals]
  | kept identity =>
      cases identity with
      | int => simp [Item.realsOf, typed.reals_eq_nil (by decide)]
      | double => exact ⟨rfl, rfl⟩

/-- Printing takes the operand that is printed. -/
theorem PrintCode.reals_eq
    {value : Operand}
    {format : Format}
    {type : ValueType}
    (printed : PrintCode value registers format type code registers') :
    Item.realsOf code = value.reals := by
  cases printed <;> simp [Item.realsOf, Item.reals, Instr.operands]

theorem realsOf_logicalOpening
    (op : BinaryOp)
    (left : Operand)
    (labels : Nat) :
    Item.realsOf (logicalOpening op left labels) = left.reals := by
  unfold logicalOpening decision
  split <;> simp [Item.realsOf, Item.reals, Instr.operands]

theorem realsOf_logicalClosing
    (op : BinaryOp)
    (right : Operand)
    (registers labels : Nat) :
    Item.realsOf (logicalClosing op right registers labels) = right.reals := by
  simp [logicalClosing, Item.realsOf, Item.reals, Instr.operands, Operand.reals]

/-- The code of an expression takes the real literals of its syntax tree, and its operand is a real
literal only where that is the value of the expression. -/
theorem ExprCode.reals_eq
    (wellFounded : forest.WellFounded)
    {id : ExprId}
    {term : Term}
    {type : ValueType}
    {operand : Operand}
    (held : forest.HoldsTerm id term)
    (checks : context.Checks (forest.expr id) type)
    (emitted : ExprCode context (forest.expr id) registers labels code operand registers' labels') :
    Item.realsOf code = term.realOperands ∧ operand.reals = term.immediate := by
  induction held generalizing registers labels code operand registers' labels' type with
  | name found | int found | double found | bool found =>
      rw [wellFounded.expr_eq found] at emitted
      cases emitted
      exact ⟨rfl, rfl⟩
  | @unary id operandId line op operandTerm found _ operandHypothesis =>
      rw [wellFounded.expr_eq found] at emitted checks
      cases emitted with
      | unary _ _ _ operandTagged operandCode unaryCode =>
          have operandChecks := checks.operand operandTagged
          obtain ⟨code_eq, value_eq⟩ := operandHypothesis operandChecks operandCode
          obtain ⟨applied_eq, result_eq⟩ :=
            unaryCode.reals_eq (operandCode.operand_typed operandChecks)
          rw [Item.realsOf_append, code_eq, applied_eq, result_eq, value_eq]
          cases op with
          | toDouble => exact ⟨List.append_nil _, rfl⟩
          | _ => exact ⟨rfl, rfl⟩
  | binary found _ _ leftHypothesis rightHypothesis =>
      rw [wellFounded.expr_eq found] at emitted checks
      cases emitted with
      | binary _ _ _ _ leftTagged rightTagged leftEmitted rightEmitted _ leftCoerced rightCoerced =>
          obtain ⟨leftChecks, rightChecks⟩ := checks.operands leftTagged rightTagged
          obtain ⟨left_eq, leftValue_eq⟩ := leftHypothesis leftChecks leftEmitted
          obtain ⟨right_eq, rightValue_eq⟩ := rightHypothesis rightChecks rightEmitted
          obtain ⟨leftSilent, leftOperand_eq⟩ :=
            leftCoerced.reals_eq (leftEmitted.operand_typed leftChecks)
          obtain ⟨rightSilent, rightOperand_eq⟩ :=
            rightCoerced.reals_eq (rightEmitted.operand_typed rightChecks)
          refine ⟨?_, rfl⟩
          simp only [Item.realsOf_append, left_eq, right_eq, leftSilent, rightSilent,
            Term.realOperands, ← leftValue_eq, ← rightValue_eq, ← leftOperand_eq,
            ← rightOperand_eq, List.append_assoc]
          simp [Item.realsOf, Item.reals, Instr.operands]
      | logical _ _ _ _ leftTagged rightTagged leftEmitted rightEmitted =>
          obtain ⟨leftChecks, rightChecks⟩ := checks.operands leftTagged rightTagged
          obtain ⟨left_eq, leftValue_eq⟩ := leftHypothesis leftChecks leftEmitted
          obtain ⟨right_eq, rightValue_eq⟩ := rightHypothesis rightChecks rightEmitted
          have leftSilent := (leftEmitted.operand_typed leftChecks).reals_eq_nil (by decide)
          refine ⟨?_, rfl⟩
          simp only [Item.realsOf_append, left_eq, right_eq, realsOf_logicalOpening,
            realsOf_logicalClosing, Term.realOperands, ← leftValue_eq, ← rightValue_eq, leftSilent,
            List.append_nil]
  | assign found _ valueHypothesis =>
      rw [wellFounded.expr_eq found] at emitted checks
      cases emitted with
      | assign _ _ _ valueTagged valueCode _ _ coerced =>
          have valueChecks := checks.value valueTagged
          obtain ⟨code_eq, value_eq⟩ := valueHypothesis valueChecks valueCode
          obtain ⟨silent, stored_eq⟩ := coerced.reals_eq (valueCode.operand_typed valueChecks)
          refine ⟨?_, stored_eq.trans value_eq⟩
          simp only [Item.realsOf_append, code_eq, silent, Term.realOperands, ← value_eq,
            ← stored_eq, List.append_nil]
          simp [Item.realsOf, Item.reals, Instr.operands]

/-- The real operands of code are told by the tally of the literals that instructions take. -/
theorem tallyOf_reals
    (wellFounded : forest.WellFounded) :
    TallyOf context forest Item.reals realTally id where
  label _ := rfl
  alloca _ _ := rfl
  jump _ := rfl
  scan _ _ := rfl
  printText _ _ := rfl
  ret := rfl
  expr := by
    rintro term type code operand ⟨id, _, _, _, _, held, checks, emitted⟩
    rw [List.map_id]
    exact (emitted.reals_eq wellFounded held checks).1
  fork := by
    rintro term code test yes no ⟨id, _, _, _, _, held, checks, emitted⟩
    have silent := (emitted.operand_typed checks).reals_eq_nil (by decide)
    simp [Item.reals, Instr.operands, silent]
  print := by
    rintro term type type' code printed operand format _ _ ⟨id, _, _, _, _, held, checks, emitted⟩
      print
    rw [List.map_id]
    exact print.reals_eq.trans (emitted.reals_eq wellFounded held checks).2

end Lowering

open CodeText

/-- The lines of an accepted program spell the patterns of the real literals that its instructions
take. -/
theorem Program.WellFounded.flatMap_linePatterns
    {program : Program}
    {tags : TagTable}
    {code : CodeModule}
    {tree : SyntaxTree}
    (wellFounded : program.WellFounded)
    (readBack : program.ReadsBack tree)
    (accepts : program.check = .ok (tags, []))
    (generated : program.generate tags = .ok code)
    (solid : ∀ item ∈ code.items, ∀ name, item.slotName? = some name -> Solid name.toList) :
    code.lines.flatMap linePatterns = tree.body.realOperands := by
  have gathered := wellFounded.flatMap_gather (Lowering.tallyOf_reals wellFounded.forest) readBack
    accepts generated
  rw [List.map_id] at gathered
  exact (code.flatMap_linePatterns solid).trans (gathered.trans (List.append_nil _))

end MiniLang
