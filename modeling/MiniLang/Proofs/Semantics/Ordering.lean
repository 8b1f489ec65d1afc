import MiniLang.Number.Binary64
import MiniLang.Proofs.Semantics.Machine

/-!
# Ordered comparisons of reals

The generated code compares reals by predicates that are ordered: whatever is compared, they fail if
one of the two bit patterns stands for no number.  Numbers are compared by their places in the order
of all numbers, in which the two zeros share a place.

The test for inequality is therefore the complement of the test for equality on integers, on truth
values and on numbers, but if one of two reals is not a number both tests fail.
-/

namespace MiniLang

namespace Binary64

/-- Whether a bit pattern stands for no number. -/
def isNaN (bits : UInt64) : Bool :=
  meaning bits = .notANumber

/-- The place among the numbers of one that a bit pattern stands for: its magnitude with its sign. -/
def rank (bits : UInt64) : Int :=
  if signWeight ≤ bits.toNat then -(bits.toNat % signWeight : Nat) else (bits.toNat % signWeight : Nat)

end Binary64

namespace Comparison

/-- A comparison of places. -/
def onRanks (left right : Int) : Comparison -> Bool
  | .eq => left = right
  | .ne => left ≠ right
  | .gt => left > right
  | .ge => left ≥ right
  | .lt => left < right
  | .le => left ≤ right

/-- A comparison of bit patterns that fails if one of them stands for no number. -/
def ordered (left right : UInt64) (comparison : Comparison) : Bool :=
  !Binary64.isNaN left && !Binary64.isNaN right &&
    comparison.onRanks (Binary64.rank left) (Binary64.rank right)

end Comparison

/-- Reals are compared by the ordered predicates. -/
def Environment.Ordered (env : Environment) : Prop :=
  ∀ (comparison : Comparison) (left right : UInt64),
    comparison.onReals env left right = comparison.ordered left right

/-- Whether a value is a real that is not a number. -/
def Value.isNaN : Value -> Bool
  | .double bits => Binary64.isNaN bits
  | _ => false

namespace Operation

/-- Whether an operation tests for inequality. -/
def isInequality : Operation -> Bool
  | .compare .ne _ => true
  | .compareReal .ne => true
  | _ => false

/-- The test for equality in the place of one for inequality. -/
def equality : Operation -> Operation
  | .compare _ type => .compare .eq type
  | .compareReal _ => .compareReal .eq
  | other => other

theorem resultType_equality
    (operation : Operation) :
    operation.equality.resultType = operation.resultType := by
  cases operation <;> rfl

/-- Two operations have opposite truth values on two values, or no result. -/
def Opposes (env : Environment) (operation other : Operation) (first second : Value) : Prop :=
  (∃ truth, other.apply env first second = some (.bool truth) ∧
    operation.apply env first second = some (.bool !truth)) ∨
  (other.apply env first second = none ∧ operation.apply env first second = none)

/-- Integers and truth values are equal or unequal. -/
theorem opposes_compare
    (env : Environment)
    (type : ValueType)
    (first second : Value) :
    (Operation.compare .ne type).Opposes env (.compare .eq type) first second := by
  cases type with
  | int =>
      cases first with
      | int left =>
          cases second with
          | int right => exact .inl ⟨left = right, rfl, by simp [apply, Comparison.onInts]⟩
          | _ => exact .inr ⟨rfl, rfl⟩
      | _ => cases second <;> exact .inr ⟨rfl, rfl⟩
  | bool =>
      cases first with
      | bool left =>
          cases second with
          | bool right => exact .inl ⟨left = right, rfl, by simp [apply, Comparison.onBools]⟩
          | _ => exact .inr ⟨rfl, rfl⟩
      | _ => cases second <;> exact .inr ⟨rfl, rfl⟩
  | double => cases first <;> cases second <;> exact .inr ⟨rfl, rfl⟩

/-- Numbers are equal or unequal. -/
theorem opposes_compareReal
    {env : Environment}
    (ordered : env.Ordered)
    {first second : Value}
    (firstNumber : first.isNaN = false)
    (secondNumber : second.isNaN = false) :
    (Operation.compareReal .ne).Opposes env (.compareReal .eq) first second := by
  cases first with
  | double left =>
      cases second with
      | double right =>
          change Binary64.isNaN left = false at firstNumber
          change Binary64.isNaN right = false at secondNumber
          refine .inl ⟨Comparison.eq.onReals env left right, rfl, ?_⟩
          change some (Value.bool (Comparison.ne.onReals env left right)) = _
          rw [ordered, ordered, Comparison.ordered, Comparison.ordered, firstNumber, secondNumber]
          simp [Comparison.onRanks]
      | _ => exact .inr ⟨rfl, rfl⟩
  | _ => cases second <;> exact .inr ⟨rfl, rfl⟩

/-- Unless one of the values is a real that is not a number, the test for inequality is the
complement of the test for equality. -/
theorem opposes_equality
    {env : Environment}
    (ordered : env.Ordered)
    {operation : Operation}
    (inequality : operation.isInequality = true)
    {first second : Value}
    (comparable : operation = .compareReal .ne -> first.isNaN = false ∧ second.isNaN = false) :
    operation.Opposes env operation.equality first second := by
  cases operation with
  | calculate | calculateReal => cases inequality
  | compare comparison type =>
      cases comparison <;> cases inequality
      exact opposes_compare env type first second
  | compareReal comparison =>
      cases comparison <;> cases inequality
      obtain ⟨firstNumber, secondNumber⟩ := comparable rfl
      exact opposes_compareReal ordered firstNumber secondNumber

/-- If one of two reals is not a number, both tests fail. -/
theorem apply_eq_false_of_isNaN
    {env : Environment}
    (ordered : env.Ordered)
    {comparison : Comparison}
    {first second : UInt64}
    (unordered : Binary64.isNaN first = true ∨ Binary64.isNaN second = true) :
    (Operation.compareReal comparison).apply env (.double first) (.double second) =
      some (.bool false) := by
  change some (Value.bool (comparison.onReals env first second)) = _
  rw [ordered comparison first second, Comparison.ordered]
  rcases unordered with unordered | unordered <;> simp [unordered]

end Operation

end MiniLang
