import EquationMap.Evaluation.Evaluate
import EquationMap.Proofs.Decimal.Nearest
import EquationMap.Proofs.Display.Shown
import EquationMap.Proofs.Tree.Parts
import EquationMap.Rendering

namespace EquationMap

open Decimal Decimal.Binary64

/-- Whether a result is the exact quotient of two integers, or a binary number if they have no
integer as their quotient. -/
def DividedExactly (dividend divisor : Int) (result : Except Halt Value) : Prop :=
  (divisor ∣ dividend → result = .ok (.int (dividend / divisor))) ∧
    (¬divisor ∣ dividend → ∃ value origin, result = .ok (.float value origin))

/-- Whether a result is a finite number, as an integer if it is one. -/
def GivesNumber (number : Binary64) (span : Span) (result : Except Halt Value) : Prop :=
  (∃ whole : Int, number.quantity = whole ∧ result = .ok (.int whole)) ∨
    (∀ whole : Int, number.quantity ≠ whole) ∧ ∃ value, ofFloat? value = some number ∧
      result = .ok (.float value span)

theorem abs_quotient (dividend divisor : Int) :
    |(dividend / divisor : ℚ)| = (dividend.natAbs / divisor.natAbs : ℚ) := by
  rw [abs_div, Nat.cast_natAbs, Nat.cast_natAbs, Int.cast_abs, Int.cast_abs]

theorem sign_mul_abs_quotient (dividend divisor : Int) :
    (dividend / divisor : ℚ) =
      sign (decide (dividend < 0) != decide (divisor < 0)) * |(dividend / divisor : ℚ)| := by
  rw [abs_div]
  rcases lt_or_ge dividend 0 with negative | positive <;>
    rcases lt_or_ge divisor 0 with negative' | positive'
  · simp [sign, negative, negative', abs_of_neg]
  · simp [sign, negative, positive', not_lt.mpr positive', abs_of_neg, abs_of_nonneg, neg_div]
  · simp [sign, negative', positive, not_lt.mpr positive, abs_of_neg, abs_of_nonneg, div_neg]
  · simp [sign, positive, positive', not_lt.mpr positive, not_lt.mpr positive', abs_of_nonneg]

/-- Whether a number is a signed quotient as it is rounded. -/
def RoundedFrom (number : Binary64) (quotient : ℚ) : Prop :=
  ∃ negative mantissa exponent, quotient = sign negative * |quotient| ∧
    Rounded |quotient| mantissa exponent ∧
    number.quantity = sign negative * (mantissa * 2 ^ exponent)

namespace RoundedFrom

variable {number : Binary64} {dividend divisor : Int}

theorem exists_whole (rounded : RoundedFrom number (dividend / divisor))
    (divides : divisor ∣ dividend) : ∃ whole : Int, number.quantity = whole := by
  obtain ⟨negative, mantissa, exponent, -, rounded, quantity⟩ := rounded
  rw [abs_quotient, ← Nat.cast_div_charZero (Int.natAbs_dvd_natAbs.mpr divides)] at rounded
  obtain ⟨whole, natural⟩ := rounded.exists_natural
  refine ⟨sign negative * whole, ?_⟩
  rw [quantity, natural]
  push_cast
  rfl

/-- A quotient of integers that are not too large is rounded to an integer only if it is one. -/
theorem eq_of_whole (rounded : RoundedFrom number (dividend / divisor)) (nonzero : divisor ≠ 0)
    (small : |dividend| ≤ 2 ^ 53) (notTiny : |divisor| ≤ 2 ^ 1074) {whole : Int}
    (same : number.quantity = whole) : (whole : ℚ) = dividend / divisor := by
  obtain ⟨negative, mantissa, exponent, signed, rounded, quantity⟩ := rounded
  rw [abs_quotient] at signed rounded
  have magnitude : (mantissa * 2 ^ exponent : ℚ) = whole.natAbs := by
    have nonneg : (0 : ℚ) ≤ mantissa * 2 ^ exponent := by positivity
    rw [Nat.cast_natAbs, Int.cast_abs, ← same, quantity, abs_mul, abs_sign, one_mul,
      abs_of_nonneg nonneg]
  rw [Int.abs_eq_natAbs] at small notTiny
  have small_abs : dividend.natAbs ≤ 2 ^ 53 := by exact_mod_cast small
  have divisor_abs : divisor.natAbs ≤ 2 ^ 1074 := by exact_mod_cast notTiny
  have equal := rounded.eq_of_natural (Int.natAbs_pos.mpr nonzero) small_abs divisor_abs magnitude
  rw [← same, quantity, magnitude, equal, ← signed]

end RoundedFrom

theorem Number.divide_of_whole {dividend divisor whole : Int} {quotient : Float}
    (made : ofQuotient? (decide (dividend < 0) != decide (divisor < 0)) dividend.natAbs
      divisor.natAbs = some quotient)
    (taken : (ofFloat? quotient).bind toInt? = some whole) :
    divide (.int dividend) (.int divisor) = .ok (.int whole) := by
  unfold divide
  dsimp only
  rw [made]
  dsimp only
  rw [taken]

/-- A quotient of integers is too large, or an integer if that is the nearest number, or else
the nearest number. -/
theorem Number.divide_cases (dividend : Int) {divisor : Int} (nonzero : divisor ≠ 0) :
    limit ≤ |(dividend / divisor : ℚ)| ∧
        divide (.int dividend) (.int divisor) = .error .quotientTooLarge ∨
      |(dividend / divisor : ℚ)| < limit ∧ ∃ number : Binary64,
        RoundedFrom number (dividend / divisor) ∧ number.Nearest (dividend / divisor) ∧
          ((∃ whole : Int, number.quantity = whole ∧
              divide (.int dividend) (.int divisor) = .ok (.int whole)) ∨
            (∀ whole : Int, number.quantity ≠ whole) ∧ ∃ value, ofFloat? value = some number ∧
              divide (.int dividend) (.int divisor) = .ok (.float value)) := by
  have signed := sign_mul_abs_quotient dividend divisor
  obtain ⟨mantissa, exponent, rounded, cases⟩ :=
    ofQuotient?_cases (decide (dividend < 0) != decide (divisor < 0)) dividend.natAbs
      (Int.natAbs_pos.mpr nonzero)
  rw [← abs_quotient] at rounded cases
  unfold divide
  dsimp only
  rcases cases with ⟨large, none⟩ | ⟨small, value, made, decoded⟩
  · rw [none]
    exact .inl ⟨large, rfl⟩
  · refine .inr ⟨small, _, ⟨_, mantissa, exponent, signed, rounded,
      (rounded.quantity_ofBits _).1⟩, ?_, ?_⟩
    · have nearest := rounded.nearest decoded
      rwa [← signed] at nearest
    · rw [made]
      dsimp only
      rw [decoded, Option.bind_some]
      cases taken : toInt? _ with
      | some whole => exact .inl ⟨whole, (toInt?_eq_some_iff _ _).mp taken, rfl⟩
      | none =>
          refine .inr ⟨fun whole same => ?_, value, decoded, rfl⟩
          rw [(toInt?_eq_some_iff _ _).mpr same] at taken
          cases taken

section

variable {scope : Scope} {lhs rhs : Node} {place : Place} {dividend divisor : Int}

theorem Evaluate.result_division
    (left : (node scope false lhs).result = .ok (.int dividend))
    (right : (node scope false rhs).result = .ok (.int divisor)) (strip : Bool) :
    (node scope strip (.binary lhs .div rhs place)).result =
      if divisor = 0 then .error (.error ⟨.divisionByZero, place.span⟩)
      else
        (BinaryOp.ofNumber (Number.divide (.int dividend) (.int divisor)) place.span).result := by
  rw [node, Outcome.result_bind_of_ok left]
  change (node scope false rhs >>= _).result = _
  rw [Outcome.result_bind_of_ok right]
  unfold BinaryOp.apply
  dsimp only [Value.number?]
  by_cases zero : divisor = 0
  · have isZero : (Number.int divisor).isZero = true := decide_eq_true zero
    rw [if_pos zero, if_pos isZero]
    rfl
  · have notZero : ¬(Number.int divisor).isZero = true := mt of_decide_eq_true zero
    rw [if_neg zero, if_neg notZero]

/-- A quotient is exact unless the nearest number is an integer that is not the quotient. -/
theorem dividedExactly_iff {result : Except Halt Value} {number : Binary64} {span : Span}
    (nonzero : divisor ≠ 0) (rounded : RoundedFrom number (dividend / divisor))
    (gives : GivesNumber number span result) :
    DividedExactly dividend divisor result ↔
      ∀ whole : Int, number.quantity = whole → (whole : ℚ) = dividend / divisor := by
  have divisor_ne : (divisor : ℚ) ≠ 0 := by exact_mod_cast nonzero
  have exact_quotient (divides : divisor ∣ dividend) :
      ((dividend / divisor : Int) : ℚ) = dividend / divisor := Int.cast_div divides divisor_ne
  constructor
  · rintro ⟨integer, binary⟩ whole same
    rcases gives with ⟨other, other_same, made⟩ | ⟨notWhole, -⟩
    · have equal : other = whole := by exact_mod_cast other_same.symm.trans same
      by_cases divides : divisor ∣ dividend
      · cases made.symm.trans (integer divides)
        rw [← equal, exact_quotient divides]
      · obtain ⟨value, origin, made'⟩ := binary divides
        cases made.symm.trans made'
    · exact absurd same (notWhole whole)
  · intro faithful
    constructor
    · intro divides
      obtain ⟨whole, same⟩ := rounded.exists_whole divides
      rcases gives with ⟨other, other_same, made⟩ | ⟨notWhole, -⟩
      · have equal : other = dividend / divisor := by
          exact_mod_cast (faithful other other_same).trans (exact_quotient divides).symm
        rw [made, equal]
      · exact absurd same (notWhole whole)
    · intro notDivides
      rcases gives with ⟨whole, same, -⟩ | ⟨-, value, -, made⟩
      · refine absurd ⟨whole, ?_⟩ notDivides
        have quotient := faithful whole same
        rw [eq_div_iff divisor_ne, mul_comm] at quotient
        exact_mod_cast quotient.symm
      · exact ⟨value, span, made⟩

theorem abs_quotient_lt_limit (nonzero : divisor ≠ 0) (small : |dividend| ≤ 2 ^ 53) :
    |(dividend / divisor : ℚ)| < limit := by
  have small_cast : |(dividend : ℚ)| ≤ 2 ^ 53 := by exact_mod_cast small
  have divisor_ge : 1 ≤ |(divisor : ℚ)| := by exact_mod_cast Int.one_le_abs nonzero
  have unit_ge : (1 : ℚ) ≤ 2 ^ (970 : Int) := one_le_zpow₀ one_le_two (by decide)
  have le_dividend : |(dividend / divisor : ℚ)| ≤ |(dividend : ℚ)| := by
    rw [abs_div]
    exact div_le_self (abs_nonneg _) divisor_ge
  unfold limit
  generalize (2 : ℚ) ^ (970 : Int) = unit at *
  linarith

/-- Division by zero is the only error that is reported. The quotient of other integers is
rounded to the nearest number, which is an integer if its quantity is; beyond the greatest number
there is none. So it is exact unless the nearest number is an integer that it is not, which
happens to no integers of usual size. -/
theorem integers_divided (left : (Evaluate.node scope false lhs).result = .ok (.int dividend))
    (right : (Evaluate.node scope false rhs).result = .ok (.int divisor)) (strip : Bool) :
    let quotient : ℚ := dividend / divisor
    let result := (Evaluate.node scope strip (.binary lhs .div rhs place)).result
    (∀ error, result = .error (.error error) ↔
        divisor = 0 ∧ error = ⟨.divisionByZero, place.span⟩) ∧
      (divisor ≠ 0 →
        (limit ≤ |quotient| ∧ result = .error (.number .quotientTooLarge) ∨
          |quotient| < limit ∧ ∃ number : Binary64, number.Nearest quotient ∧
            GivesNumber number place.span result ∧
            (DividedExactly dividend divisor result ↔
              ∀ whole : Int, number.quantity = whole → (whole : ℚ) = quotient)) ∧
        (|dividend| ≤ 2 ^ 53 → |divisor| ≤ 2 ^ 1074 →
          DividedExactly dividend divisor result)) := by
  intro quotient result
  have evaluated : result = _ := Evaluate.result_division left right strip
  by_cases zero : divisor = 0
  · rw [if_pos zero] at evaluated
    refine ⟨fun error => ?_, absurd zero⟩
    rw [evaluated]
    constructor
    · rintro ⟨⟩
      exact ⟨zero, rfl⟩
    · rintro ⟨-, rfl⟩
      rfl
  · rw [if_neg zero] at evaluated
    rcases Number.divide_cases dividend zero with
      ⟨large, divided⟩ | ⟨small, number, rounded, nearest, divided⟩
    · rw [divided] at evaluated
      refine ⟨fun error => iff_of_false ?_ (fun both => zero both.1), fun _ =>
        ⟨.inl ⟨large, evaluated⟩, fun small => ?_⟩⟩
      · rw [evaluated]
        rintro ⟨⟩
      · exact absurd (abs_quotient_lt_limit zero small) (not_lt.mpr large)
    · have gives : GivesNumber number place.span result := by
        rw [evaluated]
        rcases divided with ⟨whole, same, divided⟩ | ⟨notWhole, value, decoded, divided⟩
        · rw [divided]
          exact .inl ⟨whole, same, rfl⟩
        · rw [divided]
          exact .inr ⟨notWhole, value, decoded, rfl⟩
      have exact_iff := dividedExactly_iff zero rounded gives
      refine ⟨fun error => iff_of_false ?_ (fun both => zero both.1), fun _ =>
        ⟨.inr ⟨small, number, nearest, gives, exact_iff⟩, fun small notTiny => ?_⟩⟩
      · rcases gives with ⟨whole, -, given⟩ | ⟨-, value, -, given⟩ <;> rw [given] <;> rintro ⟨⟩
      · exact exact_iff.mpr fun whole => rounded.eq_of_whole zero small notTiny

end

theorem integers_divided_of_six :
    (Evaluate.node globalScope false (.binary (.int 6 ⟨.between 2 3, .detached⟩) .div
      (.int 3 ⟨.between 6 7, .detached⟩) ⟨.between 2 7, .detached⟩)).result = .ok (.int 2) := by
  have notTiny : |(3 : Int)| ≤ 2 ^ 1074 :=
    le_trans (by decide : |(3 : Int)| ≤ 2 ^ 2) (pow_le_pow_right₀ one_le_two (by omega))
  have left : (Evaluate.node globalScope false (.int 6 ⟨.between 2 3, .detached⟩)).result =
      .ok (.int 6) := rfl
  have right : (Evaluate.node globalScope false (.int 3 ⟨.between 6 7, .detached⟩)).result =
      .ok (.int 3) := rfl
  obtain ⟨-, divided⟩ := integers_divided left right false
  exact ((divided (by decide)).2 (by decide) notTiny).1 (by decide)

def TreePart.isDivisionOf (dividend divisor : Nat) : TreePart → Bool
  | .node (.binary (.int left _) .div (.int right _) _) => left = dividend && right = divisor
  | _ => false

theorem TreePart.eq_of_isDivisionOf {dividend divisor : Nat} {part : TreePart}
    (found : part.isDivisionOf dividend divisor = true) : ∃ leftPlace rightPlace place,
      part = .node (.binary (.int dividend leftPlace) .div (.int divisor rightPlace) place) := by
  unfold isDivisionOf at found
  split at found
  · simp only [Bool.and_eq_true, decide_eq_true_eq] at found
    obtain ⟨rfl, rfl⟩ := found
    exact ⟨_, _, _, rfl⟩
  · cases found

/-- An integer that is not a binary number is not what it is divided by one. -/
theorem quotient_not_exact_of_large :
    ∃ source leftPlace rightPlace place,
      Source.ofText "#(9007199254740993 / 1)" = .ok source ∧
      .node (.binary (.int 9007199254740993 leftPlace) .div (.int 1 rightPlace) place) ∈
        source.formula.node.subtree ∧
      ¬DividedExactly 9007199254740993 1 (Evaluate.node globalScope false (.binary
        (.int 9007199254740993 leftPlace) .div (.int 1 rightPlace) place)).result := by
  have divided : Number.divide (.int 9007199254740993) (.int 1) =
      .ok (.int 9007199254740992) := by
    have taken : ((ofQuotient? false 9007199254740993 1).bind ofFloat?).bind toInt? =
        some 9007199254740992 := by
      decide +kernel
    rw [Option.bind_assoc] at taken
    obtain ⟨quotient, made, taken⟩ := Option.bind_eq_some_iff.mp taken
    exact Number.divide_of_whole made taken
  have evaluated : ((Source.ofText "#(9007199254740993 / 1)").toOption.any fun source =>
      source.formula.node.subtree.any (TreePart.isDivisionOf 9007199254740993 1)) = true := by
    decide +kernel
  obtain ⟨source, read, evaluated⟩ := exists_ok_of_any evaluated
  obtain ⟨part, member, found⟩ := List.any_eq_true.mp evaluated
  obtain ⟨leftPlace, rightPlace, place, rfl⟩ := TreePart.eq_of_isDivisionOf found
  refine ⟨source, leftPlace, rightPlace, place, read, member, fun exact => ?_⟩
  have left : (Evaluate.node globalScope false (.int 9007199254740993 leftPlace)).result =
      .ok (.int 9007199254740993) := rfl
  have right : (Evaluate.node globalScope false (.int 1 rightPlace)).result = .ok (.int 1) := rfl
  have result : (Evaluate.node globalScope false (.binary (.int 9007199254740993 leftPlace) .div
      (.int 1 rightPlace) place)).result = _ := Evaluate.result_division left right false
  rw [if_neg (by decide), divided] at result
  cases (exact.1 (one_dvd _)).symm.trans result

end EquationMap
