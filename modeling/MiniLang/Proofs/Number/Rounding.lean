import MiniLang.Number.Binary64
import Mathlib.Algebra.Order.Field.Power
import Mathlib.Algebra.Order.Ring.Rat
import Mathlib.Tactic.FieldSimp
import Mathlib.Tactic.Linarith
import Mathlib.Tactic.NormNum
import Mathlib.Tactic.Positivity
import Mathlib.Tactic.Ring

/-!
# Correct rounding

Every finite number is a whole multiple of the smallest positive one.  Counted in these units, the
numbers from some size on lie on a coarser grid, and rounding a ratio to the grid of its own size
finds the nearest number of all.  A ratio is out of range exactly from the midpoint on between the
greatest finite number and the power of two that would follow it.
-/

namespace MiniLang
namespace Binary64

/-! ## The numbers -/

/-- The number that a finite pattern stands for. -/
def Meaning.value? : Meaning -> Option ℚ
  | .finite negative significand exponent =>
      some ((if negative then -1 else 1) * (significand * 2 ^ exponent))
  | _ => none

/-- The pattern of the finite number nearest to a ratio, without a sign.  Where another number is as
near, the significand is even. -/
def Nearest (bits : UInt64) (ratio : ℚ) : Prop :=
  ∃ (significand : Nat) (exponent : Int), meaning bits = .finite false significand exponent ∧
    ∀ (other : UInt64) (value : ℚ), (meaning other).value? = some value ->
      |significand * 2 ^ exponent - ratio| ≤ |value - ratio| ∧
        (|value - ratio| = |significand * 2 ^ exponent - ratio| ->
          value = significand * 2 ^ exponent ∨ Even significand)

/-- The midpoint between the greatest finite number and the power of two that would follow it. -/
def overflow : ℚ := 2 ^ 1024 - 2 ^ 970

/-- The exponent of the unit in which the significand of a pattern counts, above the smallest. -/
def unitOf (pattern : Nat) : Nat :=
  pattern / fullSignificand - 1

/-- The significand of a pattern. -/
def significandOf (pattern : Nat) : Nat :=
  pattern - unitOf pattern * fullSignificand

/-- The number with a pattern, counted in the smallest positive one. -/
def units (pattern : Nat) : Nat :=
  significandOf pattern * 2 ^ unitOf pattern

/-- The number with a pattern. -/
def size (pattern : Nat) : ℚ :=
  units pattern / 2 ^ smallestPower

theorem significandOf_lt
    (pattern : Nat) :
    significandOf pattern < 2 * fullSignificand := by
  unfold significandOf unitOf fullSignificand
  omega

theorem unitOf_eq_zero_or
    (pattern : Nat) :
    unitOf pattern = 0 ∨ fullSignificand ≤ significandOf pattern := by
  unfold significandOf unitOf fullSignificand
  omega

theorem unitOf_mul_add
    (pattern : Nat) :
    unitOf pattern * fullSignificand + significandOf pattern = pattern := by
  unfold significandOf unitOf fullSignificand
  omega

/-- A pattern holds the unit and the significand of its number side by side, also if the significand
was carried up to the next power of two. -/
theorem units_add
    {unit significand : Nat}
    (bounded : significand ≤ 2 * fullSignificand)
    (normal : unit = 0 ∨ fullSignificand ≤ significand) :
    units (unit * fullSignificand + significand) = significand * 2 ^ unit := by
  rcases Nat.lt_or_eq_of_le bounded with below | carried
  · have unit_eq : unitOf (unit * fullSignificand + significand) = unit := by
      unfold unitOf fullSignificand at *
      omega
    rw [units, significandOf, unit_eq, Nat.add_sub_cancel_left]
  · have unit_eq : unitOf (unit * fullSignificand + significand) = unit + 1 := by
      unfold unitOf fullSignificand at *
      omega
    have significand_eq : significandOf (unit * fullSignificand + significand) =
        fullSignificand := by
      unfold significandOf
      rw [unit_eq]
      unfold fullSignificand at *
      omega
    rw [units, significand_eq, unit_eq, carried, Nat.pow_succ]
    ring

theorem even_significandOf
    (pattern : Nat) :
    Even (significandOf pattern) ↔ Even pattern := by
  have even_full : Even fullSignificand := by decide
  conv_rhs => rw [← unitOf_mul_add pattern]
  simp [Nat.even_add, even_full]

/-- The numbers rise with their patterns. -/
theorem units_strictMono : StrictMono units := by
  refine strictMono_nat_of_lt_succ fun pattern => ?_
  have next_eq : units (pattern + 1) = (significandOf pattern + 1) * 2 ^ unitOf pattern := by
    conv_lhs => rw [← unitOf_mul_add pattern, Nat.add_assoc]
    exact units_add (significandOf_lt pattern)
      ((unitOf_eq_zero_or pattern).imp_right Nat.le_succ_of_le)
  rw [next_eq, units, Nat.add_mul, Nat.one_mul]
  exact Nat.lt_add_of_pos_right (Nat.two_pow_pos _)

/-- From some size on all numbers lie on the grid of their unit. -/
theorem units_lt_or_dvd
    (pattern unit : Nat) :
    units pattern < fullSignificand * 2 ^ unit ∨ 2 ^ unit ∣ units pattern := by
  rcases Nat.lt_or_ge (unitOf pattern) unit with finer | coarser
  · refine .inl ?_
    calc
      units pattern < 2 * fullSignificand * 2 ^ unitOf pattern :=
        Nat.mul_lt_mul_of_pos_right (significandOf_lt pattern) (Nat.two_pow_pos _)
      _ = fullSignificand * 2 ^ (unitOf pattern + 1) := by rw [Nat.pow_succ]; ring
      _ ≤ fullSignificand * 2 ^ unit :=
        Nat.mul_le_mul_left _ (Nat.pow_le_pow_right (by decide) finer)
  · exact .inr ((Nat.pow_dvd_pow 2 coarser).mul_left _)

/-- What a pattern below infinity stands for, with or without the sign bit. -/
theorem meaning_of_lt
    {bits : UInt64}
    (finite : bits.toNat % signWeight < infinity) :
    meaning bits = .finite (decide (signWeight ≤ bits.toNat))
      (significandOf (bits.toNat % signWeight)) (unitOf (bits.toNat % signWeight) - smallestPower)
    := by
  simp only [meaning]
  generalize bits.toNat % signWeight = magnitude at finite
  rw [if_neg (Nat.not_lt.2 finite.le), if_neg finite.ne]
  by_cases low : magnitude / fullSignificand = 0
  · have significand_eq : significandOf magnitude = magnitude % fullSignificand := by
      unfold significandOf unitOf fullSignificand at *
      omega
    rw [if_pos low, significand_eq, unitOf, low]
    rfl
  · have significand_eq :
        significandOf magnitude = fullSignificand + magnitude % fullSignificand := by
      unfold significandOf unitOf fullSignificand at *
      omega
    have unit_eq : (unitOf magnitude : Int) = (magnitude / fullSignificand : Nat) - 1 := by
      unfold unitOf fullSignificand at *
      omega
    rw [if_neg low, significand_eq, unit_eq]

theorem size_nonneg
    (pattern : Nat) :
    0 ≤ size pattern := by
  unfold size
  positivity

theorem size_zero : size 0 = 0 := by
  have units_eq : units 0 = 0 := rfl
  rw [size, units_eq, Nat.cast_zero, zero_div]

theorem size_strictMono : StrictMono size := by
  intro small great less
  have units_lt : (units small : ℚ) < units great := by exact_mod_cast units_strictMono less
  exact div_lt_div_of_pos_right units_lt (by positivity)

theorem significandOf_mul_zpow
    (pattern : Nat) :
    (significandOf pattern : ℚ) * 2 ^ ((unitOf pattern : Int) - smallestPower) = size pattern := by
  rw [zpow_sub₀ (by norm_num), zpow_natCast, zpow_natCast, size, units]
  push_cast
  ring

/-- A pattern that stands for a finite number is below infinity. -/
theorem lt_infinity_of_finite
    {bits : UInt64}
    {negative : Bool}
    {significand : Nat}
    {exponent : Int}
    (known : meaning bits = .finite negative significand exponent) :
    bits.toNat % signWeight < infinity := by
  by_contra large
  simp only [meaning] at known
  split at known
  · cases known
  · rw [if_pos (by omega)] at known
    cases known

/-- Every finite value is the number with a pattern, up to its sign. -/
theorem exists_size_of_value
    {bits : UInt64}
    {value : ℚ}
    (known : (meaning bits).value? = some value) :
    ∃ pattern < infinity, value = size pattern ∨ value = -size pattern := by
  cases meaning_eq : meaning bits with
  | finite negative significand exponent =>
      have finite := lt_infinity_of_finite meaning_eq
      refine ⟨_, finite, ?_⟩
      rw [meaning_of_lt finite, Meaning.value?, significandOf_mul_zpow] at known
      cases Option.some.inj known
      split
      · exact .inr (neg_one_mul _)
      · exact .inl (one_mul _)
  | _ =>
      rw [meaning_eq] at known
      cases known

/-! ## Rounding to whole numbers -/

/-- A ratio is its quotient and a part below one. -/
theorem div_eq_add_mod_div
    (numerator : Nat)
    {denominator : Nat}
    (positive : 0 < denominator) :
    (numerator : ℚ) / denominator =
      (numerator / denominator : Nat) + (numerator % denominator : Nat) / (denominator : ℚ) := by
  have nonzero : (denominator : ℚ) ≠ 0 := by exact_mod_cast positive.ne'
  have whole : (numerator : ℚ) =
      denominator * (numerator / denominator : Nat) + (numerator % denominator : Nat) := by
    exact_mod_cast (Nat.div_add_mod numerator denominator).symm
  conv_lhs => rw [whole]
  field_simp

/-- A quotient is rounded by a half at most, and by a half only to an even number. -/
theorem roundDiv_spec
    (numerator : Nat)
    {denominator : Nat}
    (positive : 0 < denominator) :
    |(roundDiv numerator denominator : ℚ) - numerator / denominator| ≤ 1 / 2 ∧
      (|(roundDiv numerator denominator : ℚ) - numerator / denominator| = 1 / 2 ->
        Even (roundDiv numerator denominator)) := by
  have positive' : (0 : ℚ) < denominator := by exact_mod_cast positive
  have part_lt : numerator % denominator < denominator := Nat.mod_lt _ positive
  rw [div_eq_add_mod_div numerator positive]
  simp only [roundDiv]
  generalize numerator / denominator = quotient
  generalize numerator % denominator = remainder at part_lt
  have down : (quotient : ℚ) - (quotient + remainder / denominator) =
      -(remainder / denominator) := by ring
  have up : ((quotient + 1 : Nat) : ℚ) - (quotient + remainder / denominator) =
      1 - remainder / denominator := by push_cast; ring
  have part_nonneg : (0 : ℚ) ≤ remainder / denominator := by positivity
  have part_le : (remainder : ℚ) / denominator ≤ 1 := by
    rw [div_le_one positive']
    exact_mod_cast part_lt.le
  have abs_down : |-((remainder : ℚ) / denominator)| = remainder / denominator := by
    rw [abs_neg, abs_of_nonneg part_nonneg]
  have abs_up : |1 - (remainder : ℚ) / denominator| = 1 - remainder / denominator :=
    abs_of_nonneg (by linarith)
  split_ifs with below above even
  · have part_lt_half : (remainder : ℚ) / denominator < 1 / 2 := by
      rw [div_lt_div_iff₀ positive' (by norm_num)]
      exact_mod_cast (by omega : remainder * 2 < 1 * denominator)
    rw [down, abs_down]
    exact ⟨part_lt_half.le, fun half => absurd half part_lt_half.ne⟩
  · have half_lt_part : 1 / 2 < (remainder : ℚ) / denominator := by
      rw [div_lt_div_iff₀ (by norm_num) positive']
      exact_mod_cast (by omega : 1 * denominator < remainder * 2)
    rw [up, abs_up]
    exact ⟨by linarith, fun half => by linarith⟩
  all_goals
    have part_eq : (remainder : ℚ) / denominator = 1 / 2 := by
      rw [div_eq_div_iff positive'.ne' (by norm_num)]
      exact_mod_cast (by omega : remainder * 2 = 1 * denominator)
  · rw [down, abs_down, part_eq]
    exact ⟨le_rfl, fun _ => Nat.even_iff.2 even⟩
  · rw [up, abs_up, part_eq]
    exact ⟨by norm_num, fun _ => Nat.even_iff.2 (by omega)⟩

/-- A whole number at a distance of a half at most is nearest, and alone unless the distance is a
half. -/
theorem nearest_whole
    {whole : Nat}
    {ratio : ℚ}
    (close : |(whole : ℚ) - ratio| ≤ 1 / 2)
    (other : Nat) :
    |(whole : ℚ) - ratio| ≤ |(other : ℚ) - ratio| ∧
      (|(other : ℚ) - ratio| = |(whole : ℚ) - ratio| ->
        other = whole ∨ |(whole : ℚ) - ratio| = 1 / 2) := by
  by_cases same : other = whole
  · subst same
    exact ⟨le_rfl, fun _ => .inl rfl⟩
  · have apart : (1 : ℚ) ≤ |(other : ℚ) - whole| := by
      have apart' : (1 : Int) ≤ |(other : Int) - whole| := Int.one_le_abs (by omega)
      exact_mod_cast apart'
    have triangle : |(other : ℚ) - whole| ≤ |(other : ℚ) - ratio| + |(whole : ℚ) - ratio| := by
      rw [abs_sub_comm (whole : ℚ) ratio]
      exact abs_sub_le _ _ _
    exact ⟨by linarith, fun tie => .inr (by linarith)⟩

/-! ## Powers of two -/

theorem two_zpow_eq
    (exponent : Int) :
    (2 : ℚ) ^ exponent = 2 ^ exponent.toNat / 2 ^ (-exponent).toNat := by
  have split : exponent = (exponent.toNat : Int) - ((-exponent).toNat : Int) := by omega
  conv_lhs => rw [split]
  rw [zpow_sub₀ (by norm_num), zpow_natCast, zpow_natCast]

theorem scale_eq
    (numerator denominator : Nat)
    (exponent : Int) :
    ((scale numerator denominator exponent).1 : ℚ) / (scale numerator denominator exponent).2 =
      numerator / denominator / 2 ^ exponent := by
  rw [two_zpow_eq]
  simp only [scale, Nat.pow_eq]
  push_cast
  field_simp

theorem scale_pos
    (numerator : Nat)
    {denominator : Nat}
    (positive : 0 < denominator)
    (exponent : Int) :
    0 < (scale numerator denominator exponent).2 :=
  Nat.mul_pos positive (Nat.two_pow_pos _)

/-- Whether a power of two is above a ratio is told by scaling. -/
theorem scale_le_iff
    (numerator : Nat)
    {denominator : Nat}
    (positive : 0 < denominator)
    (exponent : Int) :
    (scale numerator denominator exponent).2 ≤ (scale numerator denominator exponent).1 ↔
      (2 : ℚ) ^ exponent ≤ numerator / denominator := by
  have scaled_pos : (0 : ℚ) < (scale numerator denominator exponent).2 := by
    exact_mod_cast scale_pos numerator positive exponent
  have power_pos : (0 : ℚ) < 2 ^ exponent := by positivity
  rw [← one_le_div power_pos, ← scale_eq, one_le_div scaled_pos, Nat.cast_le]

/-- The logarithm of a positive ratio. -/
theorem logTwo_spec
    {numerator denominator : Nat}
    (positive : 0 < numerator)
    (positive' : 0 < denominator) :
    (2 : ℚ) ^ logTwo numerator denominator ≤ numerator / denominator ∧
      (numerator : ℚ) / denominator < 2 ^ (logTwo numerator denominator + 1) := by
  have denominator_pos : (0 : ℚ) < denominator := by exact_mod_cast positive'
  have numerator_le : (2 : ℚ) ^ numerator.log2 ≤ numerator := by
    exact_mod_cast Nat.log2_self_le positive.ne'
  have numerator_lt : (numerator : ℚ) < 2 ^ (numerator.log2 + 1) := by
    exact_mod_cast (Nat.lt_log2_self : numerator < 2 ^ (numerator.log2 + 1))
  have denominator_le : (2 : ℚ) ^ denominator.log2 ≤ denominator := by
    exact_mod_cast Nat.log2_self_le positive'.ne'
  have denominator_lt : (denominator : ℚ) < 2 ^ (denominator.log2 + 1) := by
    exact_mod_cast (Nat.lt_log2_self : denominator < 2 ^ (denominator.log2 + 1))
  have ratio_lt : (numerator : ℚ) / denominator <
      2 ^ ((numerator.log2 : Int) - denominator.log2 + 1) := by
    rw [div_lt_iff₀ denominator_pos, show (numerator.log2 : Int) - denominator.log2 + 1 =
      (numerator.log2 + 1 : Nat) - denominator.log2 by push_cast; ring,
      zpow_sub₀ (by norm_num), zpow_natCast, zpow_natCast, div_mul_eq_mul_div,
      lt_div_iff₀ (by positivity)]
    exact mul_lt_mul numerator_lt denominator_le (by positivity) (by positivity)
  have le_ratio : (2 : ℚ) ^ ((numerator.log2 : Int) - denominator.log2 - 1) ≤
      numerator / denominator := by
    rw [le_div_iff₀ denominator_pos, show (numerator.log2 : Int) - denominator.log2 - 1 =
      numerator.log2 - (denominator.log2 + 1 : Nat) by push_cast; ring,
      zpow_sub₀ (by norm_num), zpow_natCast, zpow_natCast, div_mul_eq_mul_div,
      div_le_iff₀ (by positivity)]
    exact mul_le_mul numerator_le denominator_lt.le (by positivity) (by positivity)
  simp only [logTwo]
  split_ifs with fits
  · exact ⟨(scale_le_iff numerator positive' _).1 fits, ratio_lt⟩
  · rw [scale_le_iff numerator positive', not_le] at fits
    rw [sub_add_cancel]
    exact ⟨le_ratio, fits⟩

/-! ## Rounding to numbers -/

/-- A ratio counted in a unit above the smallest. -/
def countIn (unit : Nat) (ratio : ℚ) : ℚ :=
  ratio * 2 ^ smallestPower / 2 ^ unit

theorem countIn_mul
    (unit : Nat)
    (ratio : ℚ) :
    countIn unit ratio * 2 ^ unit = ratio * 2 ^ smallestPower :=
  div_mul_cancel₀ _ (by positivity)

/-- The significand of a ratio, in the unit that fits the size of the ratio. -/
structure Rounds (ratio : ℚ) (unit significand : Nat) : Prop where
  close : |(significand : ℚ) - countIn unit ratio| ≤ 1 / 2
  tied : |(significand : ℚ) - countIn unit ratio| = 1 / 2 -> Even significand
  below : countIn unit ratio < 2 * fullSignificand
  normal : unit = 0 ∨ (fullSignificand : ℚ) ≤ countIn unit ratio

/-- The pattern of a positive ratio is put together from its unit and its significand. -/
theorem exists_rounds
    {numerator denominator : Nat}
    (positive : 0 < numerator)
    (positive' : 0 < denominator) :
    ∃ unit significand,
      patternOfRatio numerator denominator = unit * fullSignificand + significand ∧
        Rounds (numerator / denominator) unit significand := by
  obtain ⟨log_le, lt_log⟩ := logTwo_spec positive positive'
  have exponent_eq : unitExponent numerator denominator =
      max (logTwo numerator denominator - 52) (-1074) := rfl
  generalize logTwo numerator denominator = log at *
  have count_eq : countIn (unitExponent numerator denominator + smallestPower).toNat
      (numerator / denominator) =
        numerator / denominator / 2 ^ unitExponent numerator denominator := by
    have unit_eq : ((unitExponent numerator denominator + smallestPower).toNat : Int) =
        unitExponent numerator denominator + smallestPower := by
      unfold smallestPower
      omega
    rw [countIn, ← zpow_natCast 2 (Int.toNat _), unit_eq, zpow_add₀ (by norm_num), zpow_natCast]
    field_simp
  have spec := roundDiv_spec (scale numerator denominator (unitExponent numerator denominator)).1
    (scale_pos numerator positive' (unitExponent numerator denominator))
  rw [scale_eq, ← count_eq] at spec
  refine ⟨_, _, if_neg positive.ne', spec.1, spec.2, ?_, ?_⟩
  · rw [count_eq, div_lt_iff₀ (by positivity)]
    refine lt_log.trans_le ?_
    have carried : (2 : ℚ) * fullSignificand = 2 ^ (53 : Int) := by
      unfold fullSignificand
      norm_num
    rw [carried, ← zpow_add₀ (by norm_num)]
    exact zpow_le_zpow_right₀ (by norm_num) (by omega)
  · refine or_iff_not_imp_left.2 fun above => ?_
    have log_eq : unitExponent numerator denominator = log - 52 := by
      unfold smallestPower at above
      omega
    have full_eq : (fullSignificand : ℚ) = 2 ^ (52 : Int) := by
      unfold fullSignificand
      norm_num
    rw [count_eq, le_div_iff₀ (by positivity), full_eq, ← zpow_add₀ (by norm_num), log_eq,
      add_sub_cancel]
    exact log_le

theorem cast_fullSignificand : (fullSignificand : ℚ) = 2 ^ 52 := by
  unfold fullSignificand
  norm_num

/-- The midpoint beyond the greatest finite number, counted in the smallest one. -/
theorem overflow_mul : overflow * 2 ^ smallestPower = (4 * fullSignificand - 1) * 2 ^ 2044 := by
  have upper : (2 : ℚ) ^ 1024 = 2 ^ 970 * 2 ^ 54 := pow_add 2 970 54
  have whole : (2 : ℚ) ^ 970 * 2 ^ smallestPower = 2 ^ 2044 := by
    rw [smallestPower, ← pow_add]
  rw [overflow, upper, ← whole, cast_fullSignificand]
  generalize (2 : ℚ) ^ 970 = base
  ring

namespace Rounds

variable {ratio : ℚ} {unit significand : Nat}

theorem le_carried
    (rounds : Rounds ratio unit significand) :
    significand ≤ 2 * fullSignificand := by
  have upper := (abs_le.1 rounds.close).2
  have significand_lt : (significand : ℚ) < (2 * fullSignificand + 1 : Nat) := by
    have below := rounds.below
    push_cast
    linarith
  exact Nat.lt_succ_iff.1 (by exact_mod_cast significand_lt)

theorem full_le
    (rounds : Rounds ratio unit significand) :
    unit = 0 ∨ fullSignificand ≤ significand := by
  refine rounds.normal.imp_right fun normal => ?_
  have lower := (abs_le.1 rounds.close).1
  have full_lt : (fullSignificand : ℚ) < (significand + 1 : Nat) := by
    push_cast
    linarith
  exact Nat.lt_succ_iff.1 (by exact_mod_cast full_lt)

/-- Rounding to the grid of a ratio's own size finds the nearest number of all, since the grid holds
all numbers from its lower end on, and this end is nearer than what lies below it. -/
theorem nearest
    (rounds : Rounds ratio unit significand)
    (pattern : Nat) :
    |(significand : ℚ) - countIn unit ratio| ≤ |units pattern / 2 ^ unit - countIn unit ratio| ∧
      (|units pattern / 2 ^ unit - countIn unit ratio| =
          |(significand : ℚ) - countIn unit ratio| ->
        (units pattern : ℚ) / 2 ^ unit = significand ∨ Even significand) := by
  have placed : 2 ^ unit ∣ units pattern ∨ (units pattern : ℚ) / 2 ^ unit < fullSignificand ∧
      (fullSignificand : ℚ) ≤ countIn unit ratio := by
    rcases rounds.normal with rfl | normal
    · exact .inl (one_dvd _)
    · refine (units_lt_or_dvd pattern unit).symm.imp_right fun finer => ⟨?_, normal⟩
      rw [div_lt_iff₀ (by positivity)]
      exact_mod_cast finer
  rcases placed with ⟨multiple, multiple_eq⟩ | ⟨finer, normal⟩
  · have whole_eq : (units pattern : ℚ) / 2 ^ unit = multiple := by
      rw [multiple_eq]
      push_cast
      field_simp
    rw [whole_eq]
    obtain ⟨nearer, tie⟩ := nearest_whole rounds.close multiple
    refine ⟨nearer, fun equal => (tie equal).imp ?_ rounds.tied⟩
    rintro rfl
    rfl
  · have nearer : |(significand : ℚ) - countIn unit ratio| ≤ countIn unit ratio - fullSignificand
        := by
      have end_nearer := (nearest_whole rounds.close fullSignificand).1
      rwa [abs_of_nonpos (sub_nonpos.2 normal), neg_sub] at end_nearer
    have distance_eq : |units pattern / 2 ^ unit - countIn unit ratio| =
        countIn unit ratio - units pattern / 2 ^ unit := by
      rw [abs_of_nonpos (by linarith), neg_sub]
    rw [distance_eq]
    exact ⟨by linarith, fun equal => by linarith⟩

/-- In the greatest unit of finite numbers, the significand is carried from the last half on. -/
theorem lt_carried_iff
    (rounds : Rounds ratio unit significand) :
    significand < 2 * fullSignificand ↔ 2 * countIn unit ratio < 4 * fullSignificand - 1 := by
  obtain ⟨lower, upper⟩ := abs_le.1 rounds.close
  constructor
  · intro small
    by_contra late
    have significand_eq : significand + 1 = 2 * fullSignificand := by
      have significand_ge : (2 * fullSignificand : Nat) < (significand + 2 : ℚ) := by
        push_cast
        linarith
      have significand_ge' : 2 * fullSignificand < significand + 2 := by
        exact_mod_cast significand_ge
      omega
    have significand_eq' : (significand : ℚ) + 1 = 2 * fullSignificand := by
      exact_mod_cast significand_eq
    have half : |(significand : ℚ) - countIn unit ratio| = 1 / 2 := by
      rw [abs_of_nonpos (by linarith)]
      linarith
    have even := Nat.even_iff.1 (rounds.tied half)
    omega
  · intro early
    have significand_lt : (significand : ℚ) < (2 * fullSignificand : Nat) := by
      push_cast
      linarith
    exact_mod_cast significand_lt

/-- The pattern stays below that of infinity exactly if the ratio is below the midpoint. -/
theorem lt_infinity_iff
    (rounds : Rounds ratio unit significand) :
    unit * fullSignificand + significand < infinity ↔ ratio < overflow := by
  have carried := rounds.le_carried
  have below := rounds.below
  have full_pos : (0 : ℚ) < fullSignificand := by
    rw [cast_fullSignificand]
    norm_num
  have smallest_pos : (0 : ℚ) < 2 ^ smallestPower := by positivity
  have base_pos : (0 : ℚ) < 2 ^ 2044 := by positivity
  rw [← mul_lt_mul_iff_left₀ smallest_pos, overflow_mul, ← countIn_mul unit ratio]
  rcases Nat.lt_trichotomy unit 2045 with low | rfl | high
  · have finite : unit * fullSignificand + significand < infinity := by
      unfold fullSignificand infinity at *
      omega
    refine iff_of_true finite ?_
    calc
      countIn unit ratio * 2 ^ unit < 2 * fullSignificand * 2 ^ unit :=
        mul_lt_mul_of_pos_right below (by positivity)
      _ ≤ 2 * fullSignificand * 2 ^ 2044 :=
        mul_le_mul_of_nonneg_left (pow_le_pow_right₀ (by norm_num) (by omega))
          (by linarith)
      _ ≤ (4 * fullSignificand - 1) * 2 ^ 2044 :=
        mul_le_mul_of_nonneg_right (by rw [cast_fullSignificand]; norm_num) base_pos.le
  · have power_eq : countIn 2045 ratio * 2 ^ 2045 = 2 * countIn 2045 ratio * 2 ^ 2044 := by
      rw [pow_succ (2 : ℚ) 2044]
      generalize (2 : ℚ) ^ 2044 = base
      ring
    have pattern_lt_iff : 2045 * fullSignificand + significand < infinity ↔
        significand < 2 * fullSignificand := by
      unfold fullSignificand infinity
      omega
    rw [pattern_lt_iff, rounds.lt_carried_iff, power_eq, mul_lt_mul_iff_left₀ base_pos]
  · have infinite : ¬ unit * fullSignificand + significand < infinity := by
      have full_le := rounds.full_le
      unfold fullSignificand infinity at *
      omega
    have normal : (fullSignificand : ℚ) ≤ countIn unit ratio := by
      rcases rounds.normal with rfl | normal
      · cases high
      · exact normal
    refine iff_of_false infinite (not_lt.2 ?_)
    calc
      (4 * fullSignificand - 1 : ℚ) * 2 ^ 2044 ≤ 4 * fullSignificand * 2 ^ 2044 :=
        mul_le_mul_of_nonneg_right (by linarith) base_pos.le
      _ = fullSignificand * 2 ^ 2046 := by
        rw [show (2 : ℚ) ^ 2046 = 2 ^ 2044 * 2 ^ 2 from pow_add 2 2044 2]
        generalize (2 : ℚ) ^ 2044 = base
        ring
      _ ≤ countIn unit ratio * 2 ^ unit :=
        mul_le_mul normal (pow_le_pow_right₀ (by norm_num) (by omega)) (by positivity)
          (full_pos.le.trans normal)

end Rounds

/-! ## The nearest number -/

/-- The number with a pattern is nearest among the finite ones without a sign, with a tie only if the
pattern is even. -/
def NearestPattern (pattern : Nat) (ratio : ℚ) : Prop :=
  ∀ other < infinity, |size pattern - ratio| ≤ |size other - ratio| ∧
    (|size other - ratio| = |size pattern - ratio| -> size other = size pattern ∨ Even pattern)

/-- Distances of numbers and of their counts in a unit are proportional. -/
theorem abs_size_sub_eq
    (unit pattern : Nat)
    (ratio : ℚ) :
    |size pattern - ratio| =
      |units pattern / 2 ^ unit - countIn unit ratio| * (2 ^ unit / 2 ^ smallestPower) := by
  have factor_pos : (0 : ℚ) < 2 ^ unit / 2 ^ smallestPower := by positivity
  rw [← abs_of_pos factor_pos, ← abs_mul, countIn, size]
  congr 1
  field_simp

theorem Rounds.nearestPattern
    {ratio : ℚ}
    {unit significand : Nat}
    (rounds : Rounds ratio unit significand) :
    NearestPattern (unit * fullSignificand + significand) ratio := by
  intro other _
  have power_pos : (0 : ℚ) < 2 ^ unit := by positivity
  have factor_pos : (0 : ℚ) < 2 ^ unit / 2 ^ smallestPower := by positivity
  have count_eq : (units (unit * fullSignificand + significand) : ℚ) / 2 ^ unit = significand := by
    rw [units_add rounds.le_carried rounds.full_le]
    push_cast
    field_simp
  have even_iff : Even (unit * fullSignificand + significand) ↔ Even significand := by
    have even_full : Even fullSignificand := by decide
    simp [Nat.even_add, even_full]
  obtain ⟨nearer, tie⟩ := rounds.nearest other
  rw [abs_size_sub_eq unit, abs_size_sub_eq unit other, count_eq, even_iff]
  refine ⟨mul_le_mul_of_nonneg_right nearer factor_pos.le, fun equal => ?_⟩
  refine (tie (mul_right_cancel₀ factor_pos.ne' equal)).imp_left fun same => ?_
  rw [← count_eq, div_left_inj' power_pos.ne'] at same
  rw [size, size, same]

theorem nearestPattern_zero : NearestPattern 0 0 := by
  intro other _
  rw [size_zero, sub_zero, abs_zero]
  exact ⟨abs_nonneg _, fun _ => .inr (by decide)⟩

/-- What a pattern below infinity stands for. -/
theorem meaning_ofNat
    {pattern : Nat}
    (finite : pattern < infinity) :
    meaning (UInt64.ofNat pattern) =
      .finite false (significandOf pattern) (unitOf pattern - smallestPower) := by
  have unsigned : pattern < signWeight := by
    unfold infinity signWeight at *
    omega
  have toNat_eq : (UInt64.ofNat pattern).toNat = pattern := by
    rw [UInt64.toNat_ofNat', Nat.mod_eq_of_lt]
    unfold signWeight at unsigned
    omega
  have magnitude_eq : (UInt64.ofNat pattern).toNat % signWeight = pattern := by
    rw [toNat_eq, Nat.mod_eq_of_lt unsigned]
  rw [meaning_of_lt (magnitude_eq.symm ▸ finite), magnitude_eq, toNat_eq,
    decide_eq_false (Nat.not_le.2 unsigned)]

/-- The nearest of the numbers without a sign is the nearest number to a ratio that is not
negative. -/
theorem NearestPattern.nearest
    {pattern : Nat}
    {ratio : ℚ}
    (nearest : NearestPattern pattern ratio)
    (finite : pattern < infinity)
    (nonneg : 0 ≤ ratio) :
    Nearest (UInt64.ofNat pattern) ratio := by
  refine ⟨_, _, meaning_ofNat finite, fun other value known => ?_⟩
  rw [significandOf_mul_zpow, even_significandOf]
  obtain ⟨otherPattern, otherFinite, rfl | rfl⟩ := exists_size_of_value known
  · exact nearest otherPattern otherFinite
  · obtain ⟨nearer, tie⟩ := nearest otherPattern otherFinite
    have other_nonneg := size_nonneg otherPattern
    have distance_eq : |-size otherPattern - ratio| = size otherPattern + ratio := by
      rw [abs_of_nonpos (by linarith)]
      ring
    have distance_le : |size otherPattern - ratio| ≤ size otherPattern + ratio := by
      rw [abs_le]
      exact ⟨by linarith, by linarith⟩
    have zero_nearer : |size pattern - ratio| ≤ ratio := by
      have nearer_zero := (nearest 0 (by decide)).1
      rwa [size_zero, zero_sub, abs_neg, abs_of_nonneg nonneg] at nearer_zero
    rw [distance_eq]
    refine ⟨nearer.trans distance_le, fun equal => ?_⟩
    -- Zero is nearer than every negative number, so only the negative zero can be as near.
    have other_zero : size otherPattern = 0 := by linarith
    rw [other_zero] at tie ⊢
    rw [neg_zero]
    refine tie ?_
    rw [zero_sub, abs_neg, abs_of_nonneg nonneg]
    linarith

/-- A ratio has a finite number exactly below the midpoint, and this is the nearest one. -/
theorem ofRatio?_spec
    (numerator : Nat)
    {denominator : Nat}
    (positive : 0 < denominator) :
    ((numerator : ℚ) / denominator < overflow ->
      ∃ bits, ofRatio? numerator denominator = some bits ∧
        Nearest bits (numerator / denominator)) ∧
      (overflow ≤ (numerator : ℚ) / denominator -> ofRatio? numerator denominator = none) := by
  have nonneg : (0 : ℚ) ≤ numerator / denominator := by positivity
  have pattern_spec : NearestPattern (patternOfRatio numerator denominator)
      (numerator / denominator) ∧
        (patternOfRatio numerator denominator < infinity ↔
          (numerator : ℚ) / denominator < overflow) := by
    rcases Nat.eq_zero_or_pos numerator with rfl | numerator_pos
    · have pattern_eq : patternOfRatio 0 denominator = 0 := if_pos rfl
      rw [pattern_eq, Nat.cast_zero, zero_div]
      refine ⟨nearestPattern_zero, iff_of_true (by decide) ?_⟩
      exact sub_pos.2 (pow_lt_pow_right₀ (by norm_num) (by norm_num))
    · obtain ⟨unit, significand, pattern_eq, rounds⟩ := exists_rounds numerator_pos positive
      rw [pattern_eq]
      exact ⟨rounds.nearestPattern, rounds.lt_infinity_iff⟩
  obtain ⟨nearest, finite_iff⟩ := pattern_spec
  constructor
  · intro below
    have finite := finite_iff.2 below
    exact ⟨_, if_pos finite, nearest.nearest finite nonneg⟩
  · intro above
    exact if_neg fun finite => not_lt.2 above (finite_iff.1 finite)

/-- The nearest number is nearest among those without a sign. -/
theorem Nearest.nearestPattern
    {bits : UInt64}
    {ratio : ℚ}
    (nearest : Nearest bits ratio) :
    bits.toNat < infinity ∧ NearestPattern bits.toNat ratio := by
  obtain ⟨significand, exponent, known, nearer⟩ := nearest
  have magnitude_lt := lt_infinity_of_finite known
  have parts := known.symm.trans (meaning_of_lt magnitude_lt)
  injection parts with unsigned significand_eq exponent_eq
  have magnitude_eq : bits.toNat % signWeight = bits.toNat :=
    Nat.mod_eq_of_lt (Nat.not_le.1 (of_decide_eq_false unsigned.symm))
  rw [magnitude_eq] at magnitude_lt significand_eq exponent_eq
  refine ⟨magnitude_lt, fun other finite => ?_⟩
  have value_eq : (meaning (UInt64.ofNat other)).value? = some (size other) := by
    rw [meaning_ofNat finite, Meaning.value?, significandOf_mul_zpow]
    exact congrArg some (one_mul _)
  have compared := nearer _ _ value_eq
  rwa [significand_eq, exponent_eq, significandOf_mul_zpow, even_significandOf] at compared

/-- What lies between two points is nearer to their midpoint. -/
theorem abs_sub_lt_of_between
    {low middle high ratio : ℚ}
    (above : low < middle)
    (below : middle < high)
    (tie : |high - ratio| = |low - ratio|) :
    |middle - ratio| < |low - ratio| := by
  rcases abs_eq_abs.1 tie with same | opposite
  · linarith
  · rw [abs_of_nonpos (by linarith : low - ratio ≤ 0), abs_lt]
    exact ⟨by linarith, by linarith⟩

/-- Two numbers that are as near have no other between them, which would be nearer. -/
theorem NearestPattern.adjacent
    {low high : Nat}
    {ratio : ℚ}
    (nearest : NearestPattern low ratio)
    (finite : high < infinity)
    (tie : |size high - ratio| = |size low - ratio|) :
    high ≤ low + 1 := by
  by_contra apart
  rw [Nat.not_le] at apart
  have between := abs_sub_lt_of_between (size_strictMono (Nat.lt_succ_self low))
    (size_strictMono apart) tie
  exact absurd (nearest (low + 1) (apart.trans finite)).1 (not_le.2 between)

/-- There is at most one nearest number, since of two neighbours one is odd. -/
theorem Nearest.unique
    {first second : UInt64}
    {ratio : ℚ}
    (firstNearest : Nearest first ratio)
    (secondNearest : Nearest second ratio) :
    first = second := by
  obtain ⟨firstFinite, firstNearest⟩ := firstNearest.nearestPattern
  obtain ⟨secondFinite, secondNearest⟩ := secondNearest.nearestPattern
  obtain ⟨secondNearer, firstEven⟩ := firstNearest _ secondFinite
  obtain ⟨firstNearer, secondEven⟩ := secondNearest _ firstFinite
  have tie := firstNearer.antisymm secondNearer
  refine UInt64.toNat_inj.1 ?_
  rcases firstEven tie with same | firstEven
  · exact (size_strictMono.injective same).symm
  rcases secondEven tie.symm with same | secondEven
  · exact size_strictMono.injective same
  have upward := firstNearest.adjacent secondFinite tie
  have downward := secondNearest.adjacent firstFinite tie.symm
  rw [Nat.even_iff] at firstEven secondEven
  omega

end Binary64
end MiniLang
