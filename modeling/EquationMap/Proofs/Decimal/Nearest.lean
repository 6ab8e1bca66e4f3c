import EquationMap.Proofs.Decimal.Encoding
import EquationMap.Proofs.Decimal.Rounding

namespace EquationMap.Decimal

/-- The middle between the greatest finite number and the next power of two, `2 ^ 1024`. -/
def limit : ℚ :=
  (2 ^ 54 - 1) * 2 ^ (970 : Int)

namespace Binary64

def sign (negative : Bool) : Int :=
  if negative then -1 else 1

theorem sign_mul_self (negative : Bool) : (sign negative : ℚ) * sign negative = 1 := by
  cases negative <;> norm_num [sign]

theorem abs_sign (negative : Bool) : |(sign negative : ℚ)| = 1 := by
  cases negative <;> norm_num [sign]

def quantity (number : Binary64) : ℚ :=
  sign number.negative * (number.mantissa * 2 ^ number.exponent)

/-- Whether no other finite number is nearer to a target, nor as near unless the mantissa of
this one is even. -/
structure Nearest (number : Binary64) (target : ℚ) : Prop where
  isFloat : ∃ value, ofFloat? value = some number
  closest : ∀ value other, ofFloat? value = some other →
    |number.quantity - target| ≤ |other.quantity - target|
  even : ∀ value other, ofFloat? value = some other →
    |number.quantity - target| = |other.quantity - target| →
      other.quantity = number.quantity ∨ number.mantissa % 2 = 0

theorem toInt?_eq_some_iff (number : Binary64) (whole : Int) :
    number.toInt? = some whole ↔ number.quantity = whole := by
  obtain ⟨negative, mantissa, exponent⟩ := number
  generalize above : mantissa * 2 ^ exponent.toNat = numerator
  generalize below : 2 ^ (-exponent).toNat = denominator
  have denominator_pos : (0 : ℚ) < denominator := by
    rw [← below]
    positivity
  have magnitude : (mantissa * 2 ^ exponent : ℚ) = numerator / denominator := by
    rw [two_zpow_eq_div, ← above, ← below]
    push_cast
    ring
  -- Powers of negative exponent go to the denominator.
  have taken : toInt? ⟨negative, mantissa, exponent⟩ =
      if numerator % denominator = 0 then
        some (if negative then -((numerator / denominator : Nat) : Int)
          else (numerator / denominator : Nat))
      else none := by
    rw [← above, ← below]
    rfl
  rw [taken, quantity, magnitude]
  split
  · rename_i divides
    rw [← Nat.cast_div_charZero (Nat.dvd_of_mod_eq_zero divides), Option.some_inj]
    generalize numerator / denominator = size
    cases negative <;> simp [sign] <;> norm_cast
  · rename_i notDivides
    refine iff_of_false (Option.some_ne_none whole).symm fun same => ?_
    refine notDivides (Nat.mod_eq_zero_of_dvd ?_)
    have quotient : (numerator / denominator : ℚ) = sign negative * whole := by
      rw [← same, ← mul_assoc, sign_mul_self, one_mul]
    rw [div_eq_iff denominator_pos.ne'] at quotient
    have product : (numerator : Int) = sign negative * whole * denominator := by
      exact_mod_cast quotient
    exact Int.natCast_dvd_natCast.mp ⟨_, product.trans (mul_comm _ _)⟩

end Binary64

namespace Rounded

open Binary64

variable {target : ℚ} {mantissa : Nat} {exponent : Int}

/-- The number of the bits that a target is rounded to. A mantissa that is rounded up to 54 bits
is halved. -/
theorem ofBits_eq (rounded : Rounded target mantissa exponent) (negative : Bool) :
    let number := ofBits negative ((exponent + 1074).toNat * 2 ^ 52 + mantissa)
    number = ⟨negative, mantissa, exponent⟩ ∨
      mantissa = 2 ^ 53 ∧ number = ⟨negative, 2 ^ 52, exponent + 1⟩ := by
  intro number
  have bound := rounded.mantissa_le
  have least := rounded.least
  unfold number ofBits
  by_cases small : mantissa < 2 ^ 52
  · have lowest := rounded.normal.resolve_right (by omega)
    left
    rw [lowest, neg_add_cancel, Int.toNat_zero, zero_mul, zero_add, if_pos (by omega)]
  · rw [if_neg (by omega)]
    by_cases carried : mantissa = 2 ^ 53
    · refine .inr ⟨carried, ?_⟩
      rw [Binary64.mk.injEq]
      exact ⟨rfl, by omega, by omega⟩
    · left
      rw [Binary64.mk.injEq]
      exact ⟨rfl, by omega, by omega⟩

theorem quantity_ofBits (rounded : Rounded target mantissa exponent) (negative : Bool) :
    let number := ofBits negative ((exponent + 1074).toNat * 2 ^ 52 + mantissa)
    number.quantity = sign negative * (mantissa * 2 ^ exponent) ∧
      (mantissa % 2 = 0 → number.mantissa % 2 = 0) := by
  intro number
  rcases rounded.ofBits_eq negative with same | ⟨carried, same⟩
  · rw [show number = _ from same]
    exact ⟨rfl, id⟩
  · rw [show number = _ from same]
    refine ⟨?_, fun _ => by norm_num⟩
    rw [quantity, carried, zpow_add_one₀ two_ne_zero]
    push_cast
    ring

theorem nearest (rounded : Rounded target mantissa exponent) {negative : Bool} {value : Float}
    (decoded : ofFloat? value =
      some (ofBits negative ((exponent + 1074).toNat * 2 ^ 52 + mantissa))) :
    (ofBits negative ((exponent + 1074).toNat * 2 ^ 52 + mantissa)).Nearest
      (sign negative * target) := by
  obtain ⟨quantity, even⟩ := rounded.quantity_ofBits negative
  have distance : |sign negative * (mantissa * 2 ^ exponent) - sign negative * target| =
      |(mantissa * 2 ^ exponent : ℚ) - target| := by
    rw [← mul_sub, abs_mul, abs_sign, one_mul]
  -- With the sign of the target drawn out, every finite number is a multiple of a power of two.
  have others (value : Float) (other : Binary64) (finite : ofFloat? value = some other) :
      ∃ coefficient : Int, |coefficient| < 2 ^ 53 ∧ -1074 ≤ other.exponent ∧
        other.quantity = sign negative * (coefficient * 2 ^ other.exponent) := by
    obtain ⟨bits, least⟩ := bounds_of_ofFloat? finite
    refine ⟨sign negative * (sign other.negative * other.mantissa), ?_, least, ?_⟩
    · have small : |(other.mantissa : Int)| < 2 ^ 53 := by
        rw [Nat.abs_cast]
        exact_mod_cast bits
      cases negative <;> cases other.negative <;> simpa [sign] using small
    · push_cast
      rw [mul_assoc (sign negative : ℚ), ← mul_assoc, sign_mul_self, one_mul, mul_assoc]
      rfl
  refine ⟨⟨value, decoded⟩, fun value other finite => ?_, fun value other finite same => ?_⟩
  · obtain ⟨coefficient, bits, least, other_quantity⟩ := others value other finite
    rw [quantity, distance, other_quantity, ← mul_sub, abs_mul, abs_sign, one_mul]
    exact (rounded.closest bits least).1
  · obtain ⟨coefficient, bits, least, other_quantity⟩ := others value other finite
    rw [quantity, distance, other_quantity, ← mul_sub, abs_mul, abs_sign, one_mul] at same
    rw [quantity, other_quantity]
    exact ((rounded.closest bits least).2 same).imp (congrArg _) even

/-- The mantissa is not rounded up to 54 bits if the target is below the middle; the greatest
mantissa is odd. -/
theorem mantissa_lt_iff (rounded : Rounded target mantissa exponent) :
    mantissa < 2 ^ 53 ↔ target < (2 ^ 53 - 1 / 2) * 2 ^ exponent := by
  have unit_pos : (0 : ℚ) < 2 ^ exponent := by positivity
  obtain ⟨upper, lower⟩ := abs_le.mp rounded.near
  constructor
  · intro small
    have last_le : (mantissa : ℚ) ≤ 2 ^ 53 - 1 := by
      have succ_le : ((mantissa + 1 : Nat) : ℚ) ≤ 2 ^ 53 := by exact_mod_cast small
      push_cast at succ_le
      linarith
    by_contra large
    -- then the target is half a bit above the greatest mantissa, which is odd and keeps no tie
    have scaled := mul_le_mul_of_nonneg_right last_le unit_pos.le
    have tie : mantissa * 2 ^ exponent - target = -(2 ^ exponent / 2) := by linarith
    have even := rounded.even (by rw [tie, abs_neg, abs_of_pos (by linarith)])
    have equal : (mantissa : ℚ) * 2 ^ exponent = (2 ^ 53 - 1) * 2 ^ exponent := by linarith
    have last : (mantissa : ℚ) = 2 ^ 53 - 1 := mul_right_cancel₀ unit_pos.ne' equal
    have succ : ((mantissa + 1 : Nat) : ℚ) = (2 ^ 53 : Nat) := by
      push_cast
      linarith
    have natural : mantissa + 1 = 2 ^ 53 := by exact_mod_cast succ
    omega
  · intro below
    have mantissa_lt : (mantissa : ℚ) * 2 ^ exponent < 2 ^ 53 * 2 ^ exponent := by linarith
    exact_mod_cast lt_of_mul_lt_mul_right mantissa_lt unit_pos.le

theorem finite_iff (rounded : Rounded target mantissa exponent) :
    (exponent + 1074).toNat * 2 ^ 52 + mantissa < 2047 * 2 ^ 52 ↔ target < limit := by
  unfold limit
  have bound := rounded.mantissa_le
  have unit_pos : (0 : ℚ) < 2 ^ (970 : Int) := by positivity
  have above_unit (place : Int) : (2 : ℚ) ^ (970 + place) = 2 ^ place * 2 ^ (970 : Int) := by
    rw [zpow_add₀ two_ne_zero, mul_comm]
  have monotone {place other : Int} (le : place ≤ other) : (2 : ℚ) ^ place ≤ 2 ^ other :=
    zpow_le_zpow_right₀ one_le_two le
  -- The greatest finite numbers have the exponent 971.
  rcases lt_trichotomy exponent 971 with lower | greatest | higher
  · refine iff_of_true (by omega) ?_
    have power : (2 : ℚ) ^ exponent ≤ 2 ^ (970 : Int) := monotone (by omega)
    generalize (2 : ℚ) ^ (970 : Int) = unit at *
    have below := rounded.below
    linarith
  · have power : (2 : ℚ) ^ exponent = 2 * 2 ^ (970 : Int) := by
      rw [greatest]
      exact above_unit 1
    have middle : ((2 : ℚ) ^ 53 - 1 / 2) * 2 ^ exponent = (2 ^ 54 - 1) * 2 ^ (970 : Int) := by
      rw [power]
      ring
    rw [← middle, ← rounded.mantissa_lt_iff]
    omega
  · have normal := rounded.normal.resolve_left (by omega)
    have above := rounded.above.resolve_left (by omega)
    refine iff_of_false (by omega) (not_lt.mpr ?_)
    have power : 2 ^ 2 * (2 : ℚ) ^ (970 : Int) ≤ 2 ^ exponent :=
      (above_unit 2).symm.le.trans (monotone (by omega))
    generalize (2 : ℚ) ^ (970 : Int) = unit at *
    linarith

end Rounded

open Binary64

theorem exists_rounded (numerator : Nat) {denominator : Nat} (positive : 0 < denominator) :
    ∃ mantissa exponent, Rounded (numerator / denominator) mantissa exponent ∧
      (if numerator = 0 then 0 else quotientBits numerator denominator) =
        (exponent + 1074).toNat * 2 ^ 52 + mantissa := by
  by_cases zero : numerator = 0
  · refine ⟨0, -1074, ?_, ?_⟩
    · rw [zero, Nat.cast_zero, zero_div]
      exact rounded_zero
    · rw [if_pos zero]
      rfl
  · refine ⟨_, _, rounded_quotient (Nat.pos_of_ne_zero zero) positive, ?_⟩
    rw [if_neg zero]
    rfl

/-- A quotient below the limit becomes the number of the bits that it is rounded to. -/
theorem ofQuotient?_cases (negative : Bool) (numerator : Nat) {denominator : Nat}
    (positive : 0 < denominator) :
    ∃ mantissa exponent, Rounded (numerator / denominator) mantissa exponent ∧
      (limit ≤ (numerator / denominator : ℚ) ∧ ofQuotient? negative numerator denominator = none ∨
        (numerator / denominator : ℚ) < limit ∧
          ∃ value, ofQuotient? negative numerator denominator = some value ∧ ofFloat? value =
            some (ofBits negative ((exponent + 1074).toNat * 2 ^ 52 + mantissa))) := by
  obtain ⟨mantissa, exponent, rounded, bits⟩ := exists_rounded numerator positive
  refine ⟨mantissa, exponent, rounded, ?_⟩
  have made : ofQuotient? negative numerator denominator =
      if (exponent + 1074).toNat * 2 ^ 52 + mantissa < 2047 * 2 ^ 52 then
        some (Float.ofBits (UInt64.ofNat (if negative then
          Nat.pow 2 63 + ((exponent + 1074).toNat * 2 ^ 52 + mantissa)
          else (exponent + 1074).toNat * 2 ^ 52 + mantissa)))
      else none := by
    rw [← bits]
    rfl
  rw [made]
  by_cases finite : (exponent + 1074).toNat * 2 ^ 52 + mantissa < 2047 * 2 ^ 52
  · rw [if_pos finite]
    exact .inr ⟨rounded.finite_iff.mp finite, _, rfl, ofFloat?_ofBits negative finite⟩
  · rw [if_neg finite]
    exact .inl ⟨not_lt.mp (mt rounded.finite_iff.mpr finite), rfl⟩

end EquationMap.Decimal
