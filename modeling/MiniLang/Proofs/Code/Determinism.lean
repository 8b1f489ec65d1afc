import MiniLang.Proofs.Code.Emission

/-!
# The rules of emitted code leave no choice

A construct has at most one code by the rules, given the numbers of registers and labels before it.
So code that is known to follow the rules is the code that the generator emits.
-/

namespace MiniLang
namespace Lowering

theorem CoercionCode.unique
    {value : Operand}
    {type wanted : ValueType}
    {registers registers₁ registers₂ : Nat}
    {code₁ code₂ : List Item}
    {result₁ result₂ : Operand}
    (first : CoercionCode value type wanted registers code₁ result₁ registers₁)
    (second : CoercionCode value type wanted registers code₂ result₂ registers₂) :
    code₁ = code₂ ∧ result₁ = result₂ ∧ registers₁ = registers₂ := by
  cases first with
  | promoted =>
      cases second with
      | promoted => exact ⟨rfl, rfl, rfl⟩
      | kept _ fits => exact absurd ⟨rfl, rfl⟩ fits
  | kept _ fits =>
      cases second with
      | promoted => exact absurd ⟨rfl, rfl⟩ fits
      | kept => exact ⟨rfl, rfl, rfl⟩

theorem UnaryCode.unique
    {op : UnaryOp}
    {type : ValueType}
    {value : Operand}
    {registers registers₁ registers₂ : Nat}
    {code₁ code₂ : List Item}
    {result₁ result₂ : Operand}
    (first : UnaryCode op type value registers code₁ result₁ registers₁)
    (second : UnaryCode op type value registers code₂ result₂ registers₂) :
    code₁ = code₂ ∧ result₁ = result₂ ∧ registers₁ = registers₂ := by
  cases first with
  | applied lowered =>
      cases second with
      | applied lowered' => cases lowered <;> cases lowered' <;> exact ⟨rfl, rfl, rfl⟩
      | kept identity => cases lowered <;> cases identity
  | kept identity =>
      cases second with
      | applied lowered => cases identity <;> cases lowered
      | kept => exact ⟨rfl, rfl, rfl⟩

theorem PrintCode.unique
    {value : Operand}
    {format : Format}
    {type : ValueType}
    {registers registers₁ registers₂ : Nat}
    {code₁ code₂ : List Item}
    (first : PrintCode value registers format type code₁ registers₁)
    (second : PrintCode value registers format type code₂ registers₂) :
    code₁ = code₂ ∧ registers₁ = registers₂ := by
  cases first <;> cases second <;> exact ⟨rfl, rfl⟩

theorem ScanTemplate.unique
    {format : Format}
    {type : ValueType}
    {template₁ template₂ : Template}
    (first : ScanTemplate format type template₁)
    (second : ScanTemplate format type template₂) :
    template₁ = template₂ := by
  cases first <;> cases second <;> rfl

variable {context : Context}

/-- An expression has one code. -/
theorem ExprCode.unique
    {expression : Expr}
    {registers labels registers₁ labels₁ registers₂ labels₂ : Nat}
    {code₁ code₂ : List Item}
    {result₁ result₂ : Operand}
    (first : ExprCode context expression registers labels code₁ result₁ registers₁ labels₁)
    (second : ExprCode context expression registers labels code₂ result₂ registers₂ labels₂) :
    code₁ = code₂ ∧ result₁ = result₂ ∧ registers₁ = registers₂ ∧ labels₁ = labels₂ := by
  induction first generalizing code₂ result₂ registers₂ labels₂ with
  | int | double | bool =>
      cases second
      exact ⟨rfl, rfl, rfl, rfl⟩
  | name site spelling registers labels tagged found =>
      cases second with
      | name _ _ _ _ _ found' =>
          cases found.symm.trans found'
          exact ⟨rfl, rfl, rfl, rfl⟩
  | assign site target tagged valueTagged valueCode found accepts coerced inductionHypothesis =>
      cases second with
      | assign _ _ _ valueTagged' valueCode' found' _ coerced' =>
          cases valueTagged.symm.trans valueTagged'
          cases found.symm.trans found'
          obtain ⟨rfl, rfl, rfl, rfl⟩ := inductionHypothesis valueCode'
          obtain ⟨rfl, rfl, rfl⟩ := coerced.unique coerced'
          exact ⟨rfl, rfl, rfl, rfl⟩
  | unary site op tagged operandTagged operandCode unaryCode inductionHypothesis =>
      cases second with
      | unary _ _ _ operandTagged' operandCode' unaryCode' =>
          cases operandTagged.symm.trans operandTagged'
          obtain ⟨rfl, rfl, rfl, rfl⟩ := inductionHypothesis operandCode'
          obtain ⟨rfl, rfl, rfl⟩ := unaryCode.unique unaryCode'
          exact ⟨rfl, rfl, rfl, rfl⟩
  | binary site op plain tagged leftTagged rightTagged leftEmitted rightEmitted common leftCoerced
      rightCoerced lowered result_eq leftHypothesis rightHypothesis =>
      cases second with
      | logical _ _ logical => exact absurd logical plain
      | binary _ _ _ _ leftTagged' rightTagged' leftEmitted' rightEmitted' common' leftCoerced'
          rightCoerced' lowered' _ =>
          cases leftTagged.symm.trans leftTagged'
          cases rightTagged.symm.trans rightTagged'
          cases common.symm.trans common'
          cases lowered.symm.trans lowered'
          obtain ⟨rfl, rfl, rfl, rfl⟩ := leftHypothesis leftEmitted'
          obtain ⟨rfl, rfl, rfl, rfl⟩ := rightHypothesis rightEmitted'
          obtain ⟨rfl, rfl, rfl⟩ := leftCoerced.unique leftCoerced'
          obtain ⟨rfl, rfl, rfl⟩ := rightCoerced.unique rightCoerced'
          exact ⟨rfl, rfl, rfl, rfl⟩
  | logical site op logical tagged leftTagged rightTagged leftEmitted rightEmitted leftHypothesis
      rightHypothesis =>
      cases second with
      | binary _ _ plain => exact absurd logical plain
      | logical _ _ _ _ _ _ leftEmitted' rightEmitted' =>
          obtain ⟨rfl, rfl, rfl, rfl⟩ := leftHypothesis leftEmitted'
          obtain ⟨rfl, rfl, rfl, rfl⟩ := rightHypothesis rightEmitted'
          exact ⟨rfl, rfl, rfl, rfl⟩

/-- A statement has one code. -/
theorem StmtCode.unique
    {statement : Stmt}
    {registers labels registers₁ labels₁ registers₂ labels₂ : Nat}
    {code₁ code₂ : List Item}
    (first : StmtCode context statement registers labels code₁ registers₁ labels₁)
    (second : StmtCode context statement registers labels code₂ registers₂ labels₂) :
    code₁ = code₂ ∧ registers₁ = registers₂ ∧ labels₁ = labels₂ := by
  induction first generalizing code₂ registers₂ labels₂ with
  | done | leave =>
      cases second
      exact ⟨rfl, rfl, rfl⟩
  | seq firstEmitted restEmitted firstHypothesis restHypothesis =>
      cases second with
      | seq firstEmitted' restEmitted' =>
          obtain ⟨rfl, rfl, rfl⟩ := firstHypothesis firstEmitted'
          obtain ⟨rfl, rfl, rfl⟩ := restHypothesis restEmitted'
          exact ⟨rfl, rfl, rfl⟩
  | block line emitted inductionHypothesis =>
      cases second with
      | block _ emitted' => exact inductionHypothesis emitted'
  | expr line emitted =>
      cases second with
      | expr _ emitted' =>
          obtain ⟨rfl, rfl, rfl, rfl⟩ := emitted.unique emitted'
          exact ⟨rfl, rfl, rfl⟩
  | branch line testEmitted yesEmitted noEmitted yesHypothesis noHypothesis =>
      cases second with
      | branch _ testEmitted' yesEmitted' noEmitted' =>
          obtain ⟨rfl, rfl, rfl, rfl⟩ := testEmitted.unique testEmitted'
          obtain ⟨rfl, rfl, rfl⟩ := yesHypothesis yesEmitted'
          obtain ⟨rfl, rfl, rfl⟩ := noHypothesis noEmitted'
          exact ⟨rfl, rfl, rfl⟩
  | loop line testEmitted bodyEmitted inductionHypothesis =>
      cases second with
      | loop _ testEmitted' bodyEmitted' =>
          obtain ⟨rfl, rfl, rfl, rfl⟩ := testEmitted.unique testEmitted'
          obtain ⟨rfl, rfl, rfl⟩ := inductionHypothesis bodyEmitted'
          exact ⟨rfl, rfl, rfl⟩
  | write line tagged emitted print =>
      cases second with
      | write _ tagged' emitted' print' =>
          cases tagged.symm.trans tagged'
          obtain ⟨rfl, rfl, rfl, rfl⟩ := emitted.unique emitted'
          obtain ⟨rfl, rfl⟩ := print.unique print'
          exact ⟨rfl, rfl, rfl⟩
  | writeText line registers labels found =>
      cases second with
      | writeText _ _ _ found' =>
          cases found.symm.trans found'
          exact ⟨rfl, rfl, rfl⟩
  | read line registers labels found scan =>
      cases second with
      | read _ _ _ found' scan' =>
          cases found.symm.trans found'
          cases scan.unique scan'
          exact ⟨rfl, rfl, rfl⟩

end Lowering
end MiniLang
