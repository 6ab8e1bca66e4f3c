import EquationMap.Decimal.Binary64
import Mathlib.Algebra.Order.Field.Power
import Mathlib.Data.Rat.Cast.Order
import Mathlib.Tactic.FieldSimp
import Mathlib.Tactic.Linarith
import Mathlib.Tactic.NormNum
import Mathlib.Tactic.Positivity
import Mathlib.Tactic.Ring

namespace EquationMap.Decimal

/-! Quotients of naturals are rounded to the nearest number, a half to the even mantissa. -/

theorem roundQuotient_spec (numerator : Nat) {denominator : Nat} (positive : 0 < denominator) :
    let rounded := roundQuotient numerator denominator
    2 * (rounded * denominator) ≤ 2 * numerator + denominator ∧
      2 * numerator ≤ 2 * (rounded * denominator) + denominator ∧
      (2 * (rounded * denominator) = 2 * numerator + denominator ∨
        2 * numerator = 2 * (rounded * denominator) + denominator → rounded % 2 = 0) := by
  intro rounded
  have divided := Nat.div_add_mod numerator denominator
  have below := Nat.mod_lt numerator positive
  rw [Nat.mul_comm] at divided
  unfold rounded roundQuotient
  dsimp only
  split
  · omega
  · split
    · rw [Nat.add_mul]
      omega
    · rcases Nat.mod_two_eq_zero_or_one (numerator / denominator) with isEven | isOdd
      · rw [isEven, Nat.add_zero]
        omega
      · rw [isOdd, Nat.add_mul]
        omega

theorem two_zpow_eq_div (exponent : Int) :
    (2 : ℚ) ^ exponent = 2 ^ exponent.toNat / 2 ^ (-exponent).toNat := by
  rw [← zpow_natCast, ← zpow_natCast, ← zpow_sub₀ two_ne_zero]
  congr 1
  omega

theorem log2_quotient {numerator denominator : Nat} (positive : 0 < numerator)
    (nonzero : 0 < denominator) :
    (2 : ℚ) ^ ((numerator.log2 : Int) - denominator.log2 - 1) ≤ numerator / denominator ∧
      (numerator / denominator : ℚ) < 2 ^ ((numerator.log2 : Int) - denominator.log2 + 1) := by
  have numerator_le : (2 : ℚ) ^ numerator.log2 ≤ numerator := by
    exact_mod_cast Nat.log2_self_le positive.ne'
  have numerator_lt : (numerator : ℚ) < 2 ^ (numerator.log2 + 1) := by
    exact_mod_cast Nat.lt_log2_self
  have denominator_le : (2 : ℚ) ^ denominator.log2 ≤ denominator := by
    exact_mod_cast Nat.log2_self_le nonzero.ne'
  have denominator_lt : (denominator : ℚ) < 2 ^ (denominator.log2 + 1) := by
    exact_mod_cast Nat.lt_log2_self
  have denominator_pos : (0 : ℚ) < denominator := by exact_mod_cast nonzero
  constructor
  · have lower : (2 : ℚ) ^ ((numerator.log2 : Int) - denominator.log2 - 1) =
        2 ^ numerator.log2 / 2 ^ (denominator.log2 + 1) := by
      rw [← zpow_natCast, ← zpow_natCast, ← zpow_sub₀ two_ne_zero]
      congr 1
      omega
    rw [lower]
    exact div_le_div₀ (by positivity) numerator_le denominator_pos denominator_lt.le
  · have upper : (2 : ℚ) ^ ((numerator.log2 : Int) - denominator.log2 + 1) =
        2 ^ (numerator.log2 + 1) / 2 ^ denominator.log2 := by
      rw [← zpow_natCast, ← zpow_natCast, ← zpow_sub₀ two_ne_zero]
      congr 1
      omega
    rw [upper]
    exact div_lt_div₀ numerator_lt denominator_le (by positivity) (by positivity)

theorem quotient_lt_two_zpow_iff {numerator denominator : Nat} (positive : 0 < denominator)
    (exponent : Int) :
    numerator * Nat.pow 2 (-exponent).toNat < denominator * Nat.pow 2 exponent.toNat ↔
      (numerator / denominator : ℚ) < 2 ^ exponent := by
  have denominator_pos : (0 : ℚ) < denominator := by exact_mod_cast positive
  rw [two_zpow_eq_div, div_lt_div_iff₀ denominator_pos (by positivity), mul_comm (2 ^ _ : ℚ)]
  exact_mod_cast Iff.rfl

/-- A mantissa and an exponent that a target is rounded to, as if the exponent had no upper
bound. The exponent is as small as 53 bits allow. -/
structure Rounded (target : ℚ) (mantissa : Nat) (exponent : Int) : Prop where
  least : -1074 ≤ exponent
  below : target < 2 ^ 53 * 2 ^ exponent
  above : exponent = -1074 ∨ 2 ^ 52 * 2 ^ exponent ≤ target
  near : |mantissa * 2 ^ exponent - target| ≤ 2 ^ exponent / 2
  even : |mantissa * 2 ^ exponent - target| = 2 ^ exponent / 2 → mantissa % 2 = 0

theorem roundingExponent_spec {numerator denominator : Nat} (positive : 0 < numerator)
    (nonzero : 0 < denominator) :
    let exponent := roundingExponent numerator denominator
    (numerator / denominator : ℚ) < 2 ^ 53 * 2 ^ exponent ∧ -1074 ≤ exponent ∧
      (exponent = -1074 ∨ 2 ^ 52 * 2 ^ exponent ≤ (numerator / denominator : ℚ)) := by
  intro exponent
  obtain ⟨lower, upper⟩ := log2_quotient positive nonzero
  -- the greatest power of two that the quotient reaches
  obtain ⟨top, reached, exceeded, isTop⟩ : ∃ top : Int,
      (2 : ℚ) ^ top ≤ numerator / denominator ∧ (numerator / denominator : ℚ) < 2 ^ (top + 1) ∧
        exponent = max (-1074) (top - 52) := by
    unfold exponent roundingExponent
    dsimp only
    split
    · rename_i tooHigh
      refine ⟨_, lower, ?_, rfl⟩
      rw [sub_add_cancel]
      exact (quotient_lt_two_zpow_iff nonzero _).mp tooHigh
    · rename_i notTooHigh
      refine ⟨_, ?_, upper, rfl⟩
      exact not_lt.mp (mt (quotient_lt_two_zpow_iff nonzero _).mpr notTooHigh)
  have shift (bits : Nat) : (2 : ℚ) ^ bits * 2 ^ exponent = 2 ^ (bits + exponent) := by
    rw [← zpow_natCast, ← zpow_add₀ two_ne_zero]
  refine ⟨?_, by omega, ?_⟩
  · rw [shift]
    exact exceeded.trans_le (zpow_le_zpow_right₀ one_le_two (by omega))
  · rw [shift]
    by_cases lowest : exponent = -1074
    · exact .inl lowest
    · refine .inr ((zpow_le_zpow_right₀ one_le_two ?_).trans reached)
      omega

theorem rounded_quotient {numerator denominator : Nat} (positive : 0 < numerator)
    (nonzero : 0 < denominator) :
    let exponent := roundingExponent numerator denominator
    Rounded (numerator / denominator)
      (roundQuotient (numerator * Nat.pow 2 (-exponent).toNat)
        (denominator * Nat.pow 2 exponent.toNat)) exponent := by
  intro exponent
  obtain ⟨below, least, above⟩ := roundingExponent_spec positive nonzero
  have scaled_pos : 0 < denominator * Nat.pow 2 exponent.toNat :=
    Nat.mul_pos nonzero (Nat.pow_pos (by decide))
  obtain ⟨notAbove, notBelow, tie⟩ :=
    roundQuotient_spec (numerator * Nat.pow 2 (-exponent).toNat) scaled_pos
  generalize roundQuotient _ _ = mantissa at *
  have denominator_pos : (0 : ℚ) < denominator := by exact_mod_cast nonzero
  have common_pos : (0 : ℚ) < denominator * 2 ^ (-exponent).toNat := by positivity
  -- distance and half a unit over the common denominator
  have distance : mantissa * 2 ^ exponent - (numerator / denominator : ℚ) =
      (mantissa * (denominator * 2 ^ exponent.toNat) - numerator * 2 ^ (-exponent).toNat) /
        (denominator * 2 ^ (-exponent).toNat) := by
    rw [two_zpow_eq_div]
    field_simp
  have half : (2 : ℚ) ^ exponent / 2 =
      (denominator * 2 ^ exponent.toNat / 2) / (denominator * 2 ^ (-exponent).toNat) := by
    rw [two_zpow_eq_div]
    field_simp
  have notAbove' : 2 * (mantissa * (denominator * 2 ^ exponent.toNat)) ≤
      (2 * (numerator * 2 ^ (-exponent).toNat) + denominator * 2 ^ exponent.toNat : ℚ) := by
    exact_mod_cast notAbove
  have notBelow' : 2 * (numerator * 2 ^ (-exponent).toNat) ≤
      (2 * (mantissa * (denominator * 2 ^ exponent.toNat)) +
        denominator * 2 ^ exponent.toNat : ℚ) := by
    exact_mod_cast notBelow
  refine ⟨least, below, above, ?_, ?_⟩
  · rw [distance, half, abs_div, abs_of_pos common_pos, div_le_div_iff_of_pos_right common_pos,
      abs_le]
    constructor <;> linarith
  · rw [distance, half, abs_div, abs_of_pos common_pos, div_left_inj' common_pos.ne',
      abs_eq (by positivity)]
    intro isTie
    refine tie (isTie.imp (fun upper => ?_) fun lower => ?_)
    · have upper' : 2 * (mantissa * (denominator * 2 ^ exponent.toNat)) =
          (2 * (numerator * 2 ^ (-exponent).toNat) + denominator * 2 ^ exponent.toNat : ℚ) := by
        linarith
      exact_mod_cast upper'
    · have lower' : 2 * (numerator * 2 ^ (-exponent).toNat) =
          (2 * (mantissa * (denominator * 2 ^ exponent.toNat)) +
            denominator * 2 ^ exponent.toNat : ℚ) := by
        linarith
      exact_mod_cast lower'

theorem rounded_zero : Rounded 0 0 (-1074) := by
  refine ⟨le_rfl, by positivity, .inl rfl, ?_, fun _ => rfl⟩
  rw [Nat.cast_zero, zero_mul, sub_zero, abs_zero]
  positivity

namespace Rounded

variable {target : ℚ} {mantissa : Nat} {exponent : Int}

theorem mantissa_le (rounded : Rounded target mantissa exponent) : mantissa ≤ 2 ^ 53 := by
  have unit_pos : (0 : ℚ) < 2 ^ exponent := by positivity
  have near := (abs_le.mp rounded.near).2
  have below := rounded.below
  have lt : (mantissa : ℚ) * 2 ^ exponent < (2 ^ 53 + 1) * 2 ^ exponent := by linarith
  have bound : (mantissa : ℚ) < 2 ^ 53 + 1 := lt_of_mul_lt_mul_right lt unit_pos.le
  exact Nat.lt_succ_iff.mp (by exact_mod_cast bound)

theorem normal (rounded : Rounded target mantissa exponent) :
    exponent = -1074 ∨ 2 ^ 52 ≤ mantissa := by
  refine rounded.above.imp id fun above => ?_
  have unit_pos : (0 : ℚ) < 2 ^ exponent := by positivity
  have near := (abs_le.mp rounded.near).1
  have lt : ((2 : ℚ) ^ 52 - 1) * 2 ^ exponent < mantissa * 2 ^ exponent := by linarith
  have bound : (2 : ℚ) ^ 52 - 1 < mantissa := lt_of_mul_lt_mul_right lt unit_pos.le
  have succ : (2 : ℚ) ^ 52 < (mantissa + 1 : Nat) := by
    push_cast
    linarith
  exact Nat.lt_succ_iff.mp (by exact_mod_cast succ)

theorem closest_multiple (rounded : Rounded target mantissa exponent) (factor : Int) :
    |mantissa * 2 ^ exponent - target| ≤ |factor * 2 ^ exponent - target| ∧
      (|mantissa * 2 ^ exponent - target| = |factor * 2 ^ exponent - target| →
        factor = mantissa ∨ mantissa % 2 = 0) := by
  by_cases same : factor = mantissa
  · subst same
    exact ⟨le_rfl, fun _ => .inl rfl⟩
  · have unit_pos : (0 : ℚ) < 2 ^ exponent := by positivity
    have apart : (1 : ℚ) ≤ |((factor - mantissa : Int) : ℚ)| := by
      exact_mod_cast Int.one_le_abs (sub_ne_zero.mpr same)
    have gap : (2 : ℚ) ^ exponent ≤ |(factor : ℚ) * 2 ^ exponent - mantissa * 2 ^ exponent| := by
      have scaled := mul_le_mul_of_nonneg_right apart unit_pos.le
      rw [one_mul] at scaled
      refine scaled.trans_eq ?_
      push_cast
      rw [← sub_mul, abs_mul, abs_of_pos unit_pos]
    have detour := abs_sub_le ((factor : ℚ) * 2 ^ exponent) target (mantissa * 2 ^ exponent)
    rw [abs_sub_comm target] at detour
    have near := rounded.near
    refine ⟨by linarith, fun tie => .inr (rounded.even ?_)⟩
    linarith

theorem closest_normal (rounded : Rounded target mantissa exponent) :
    |mantissa * 2 ^ exponent - target| ≤ |2 ^ 52 * 2 ^ exponent - target| := by
  have nearest := (rounded.closest_multiple (2 ^ 52)).1
  rwa [Int.cast_pow, Int.cast_ofNat] at nearest

theorem closest (rounded : Rounded target mantissa exponent) {coefficient place : Int}
    (bits : |coefficient| < 2 ^ 53) (least : -1074 ≤ place) :
    |mantissa * 2 ^ exponent - target| ≤ |coefficient * 2 ^ place - target| ∧
      (|mantissa * 2 ^ exponent - target| = |coefficient * 2 ^ place - target| →
        (coefficient * 2 ^ place : ℚ) = mantissa * 2 ^ exponent ∨ mantissa % 2 = 0) := by
  by_cases coarse : exponent ≤ place
  · have multiple : (coefficient * 2 ^ place : ℚ) =
        ((coefficient * 2 ^ (place - exponent).toNat : Int) : ℚ) * 2 ^ exponent := by
      push_cast
      rw [mul_assoc, ← zpow_natCast, ← zpow_add₀ two_ne_zero]
      congr 2
      omega
    rw [multiple]
    obtain ⟨le, tie⟩ := rounded.closest_multiple (coefficient * 2 ^ (place - exponent).toNat)
    refine ⟨le, fun same => (tie same).imp_left fun equal => ?_⟩
    rw [equal, Int.cast_natCast]
  · -- a finer number is below the least mantissa with this exponent, which is nearer
    have above := rounded.above.resolve_left (by omega)
    have finer : (coefficient * 2 ^ place : ℚ) < 2 ^ 52 * 2 ^ exponent := by
      have coefficient_lt : (coefficient : ℚ) < 2 ^ 53 := by
        exact_mod_cast (abs_lt.mp bits).2
      have place_pos : (0 : ℚ) < 2 ^ place := by positivity
      calc (coefficient * 2 ^ place : ℚ)
          < 2 ^ 53 * 2 ^ place := mul_lt_mul_of_pos_right coefficient_lt place_pos
        _ = 2 ^ 52 * 2 ^ (place + 1) := by
            rw [zpow_add_one₀ two_ne_zero]
            ring
        _ ≤ 2 ^ 52 * 2 ^ exponent := by
            gcongr
            · exact one_le_two
            · omega
    have boundary := rounded.closest_normal
    rw [abs_of_nonpos (sub_nonpos.mpr above)] at boundary
    have strict : |mantissa * 2 ^ exponent - target| < |coefficient * 2 ^ place - target| := by
      rw [abs_of_nonpos (sub_nonpos.mpr (finer.le.trans above))]
      linarith
    exact ⟨strict.le, fun same => absurd same strict.ne⟩

theorem exists_natural {natural : Nat} (rounded : Rounded natural mantissa exponent) :
    ∃ whole : Nat, (mantissa * 2 ^ exponent : ℚ) = whole := by
  by_cases coarse : 0 ≤ exponent
  · refine ⟨mantissa * 2 ^ exponent.toNat, ?_⟩
    push_cast
    rw [← zpow_natCast, Int.toNat_of_nonneg coarse]
  · refine ⟨natural, ?_⟩
    have multiple : (((natural * 2 ^ (-exponent).toNat : Nat) : Int) : ℚ) * 2 ^ exponent =
        natural := by
      push_cast
      rw [mul_assoc, ← zpow_natCast, ← zpow_add₀ two_ne_zero, Int.toNat_of_nonneg (by omega),
        neg_add_cancel, zpow_zero, mul_one]
    have near := (rounded.closest_multiple (natural * 2 ^ (-exponent).toNat : Nat)).1
    rw [multiple, sub_self, abs_zero] at near
    exact sub_eq_zero.mp (abs_nonpos_iff.mp near)

/-- A quotient of naturals that are not too large is rounded to a natural only if it is one. -/
theorem eq_of_natural {numerator denominator : Nat}
    (rounded : Rounded (numerator / denominator) mantissa exponent)
    (positive : 0 < denominator) (small : numerator ≤ 2 ^ 53) (notTiny : denominator ≤ 2 ^ 1074)
    {whole : Nat} (natural : (mantissa * 2 ^ exponent : ℚ) = whole) :
    (whole : ℚ) = numerator / denominator := by
  by_contra unequal
  have denominator_pos : (0 : ℚ) < denominator := by exact_mod_cast positive
  have near := rounded.near
  rw [natural] at near
  -- the quotient is away from every natural by a part of the denominator
  have apart : 1 ≤ |(whole : ℚ) - numerator / denominator| * denominator := by
    have nonzero : (whole * denominator - numerator : Int) ≠ 0 := by
      intro zero
      refine unequal ((eq_div_iff denominator_pos.ne').mpr ?_)
      exact_mod_cast sub_eq_zero.mp zero
    have scaled : |(whole : ℚ) - numerator / denominator| * denominator =
        ((|(whole * denominator - numerator : Int)| : Int) : ℚ) := by
      push_cast
      rw [← abs_of_pos denominator_pos, ← abs_mul, abs_of_pos denominator_pos, sub_mul,
        div_mul_cancel₀ _ denominator_pos.ne']
    rw [scaled]
    exact_mod_cast Int.one_le_abs nonzero
  have wide : 2 ≤ 2 ^ exponent * (denominator : ℚ) := by
    have scaled := mul_le_mul_of_nonneg_right near denominator_pos.le
    linarith
  rcases rounded.above with lowest | above
  · have bound : (denominator : ℚ) ≤ 2 ^ 1074 := by exact_mod_cast notTiny
    have narrow : (2 : ℚ) ^ exponent * denominator ≤ 1 := by
      calc (2 : ℚ) ^ exponent * denominator
          ≤ 2 ^ exponent * 2 ^ 1074 := by gcongr
        _ = 1 := by
            rw [lowest, ← zpow_natCast, ← zpow_add₀ two_ne_zero]
            norm_num
    linarith
  · have bound : (numerator : ℚ) ≤ 2 ^ 53 := by exact_mod_cast small
    rw [le_div_iff₀ denominator_pos] at above
    have unit : (2 : ℚ) ^ exponent * denominator = 2 := by linarith
    have multiple : (2 : ℚ) ^ 52 * 2 ^ exponent = numerator / denominator := by
      rw [eq_div_iff denominator_pos.ne', mul_assoc, unit]
      linarith
    have nearest := rounded.closest_normal
    rw [multiple, natural, sub_self, abs_zero] at nearest
    exact unequal (sub_eq_zero.mp (abs_nonpos_iff.mp nearest))

end Rounded

end EquationMap.Decimal
