import EquationMap.Decimal.Binary64
import Mathlib

namespace EquationMap.Decimal

open Float.Model Float.Model.UnpackedFloat

theorem toNat_unpackExponent (bits : BitVec Format.binary64.numBits) :
    (unpackExponent bits).toNat = bits.toNat / 2 ^ 52 % 2 ^ 11 := by
  rw [unpackExponent, BitVec.toNat_cast, BitVec.extractLsb_toNat, Nat.shiftRight_eq_div_pow]
  rfl

theorem pack_unpack_of_finite {bits : BitVec Format.binary64.numBits}
    (finite : bits.toNat / 2 ^ 52 % 2 ^ 11 ≠ 2047) :
    UnpackedFloat.pack .binary64 (UnpackedFloat.unpack .binary64 bits) = bits := by
  have isNumber : ¬isNaNBits bits = true := by
    intro isNaN
    have last : unpackExponent bits = -1#_ := (of_decide_eq_true isNaN).1
    have exponent := toNat_unpackExponent bits
    rw [last] at exponent
    exact finite exponent.symm
  rw [pack_unpack, if_neg isNumber]

theorem toBits_ofBits {bits : UInt64} (finite : bits.toNat / 2 ^ 52 % 2 ^ 11 ≠ 2047) :
    (Float.ofBits bits).toBits = bits :=
  UInt64.toBitVec_inj.mp (pack_unpack_of_finite finite)

namespace Binary64

/-- The finite number of the given bits, the sign apart. -/
def ofBits (negative : Bool) (bits : Nat) : Binary64 :=
  if bits / 2 ^ 52 = 0 then ⟨negative, bits, -1074⟩
  else ⟨negative, 2 ^ 52 + bits % 2 ^ 52, bits / 2 ^ 52 - 1075⟩

theorem ofFloat?_ofBits (negative : Bool) {bits : Nat} (finite : bits < 2047 * 2 ^ 52) :
    ofFloat? (Float.ofBits (UInt64.ofNat (if negative then Nat.pow 2 63 + bits else bits))) =
      some (ofBits negative bits) := by
  generalize signed : (if negative then Nat.pow 2 63 + bits else bits) = whole
  have size : whole < 2 ^ 64 ∧ whole / 2 ^ 52 % 2 ^ 11 = bits / 2 ^ 52 ∧
      whole % 2 ^ 52 = bits % 2 ^ 52 ∧ decide (2 ^ 63 ≤ whole) = negative := by
    subst signed
    cases negative <;> simp <;> omega
  obtain ⟨bound, biased, fraction, sign⟩ := size
  have word : (UInt64.ofNat whole).toNat = whole := UInt64.toNat_ofNat_of_lt bound
  have kept : (Float.ofBits (UInt64.ofNat whole)).toBits = UInt64.ofNat whole := by
    refine toBits_ofBits ?_
    rw [word, biased]
    omega
  unfold ofFloat?
  rw [kept, word]
  change (if whole / 2 ^ 52 % 2 ^ 11 = 2047 then none
    else if whole / 2 ^ 52 % 2 ^ 11 = 0 then
      some (⟨decide (2 ^ 63 ≤ whole), whole % 2 ^ 52, -1074⟩ : Binary64)
    else some ⟨decide (2 ^ 63 ≤ whole), 2 ^ 52 + whole % 2 ^ 52,
      (whole / 2 ^ 52 % 2 ^ 11 : Nat) - 1075⟩) = _
  rw [biased, fraction, sign, if_neg (by omega)]
  unfold ofBits
  split
  · rw [Nat.mod_eq_of_lt (by omega)]
  · rfl

/-- The mantissa of a finite number has at most 53 bits, and its last bit counts at least
`2 ^ -1074`. -/
theorem bounds_of_ofFloat? {value : Float} {number : Binary64}
    (decoded : ofFloat? value = some number) :
    number.mantissa < 2 ^ 53 ∧ -1074 ≤ number.exponent := by
  unfold ofFloat? at decoded
  dsimp only at decoded
  have fraction : value.toBits.toNat % Nat.pow 2 52 < 2 ^ 52 := Nat.mod_lt _ (by decide)
  split at decoded
  · cases decoded
  · split at decoded
    · cases decoded
      exact ⟨Nat.lt_of_lt_of_le fraction (by decide), Int.le_refl _⟩
    · rename_i biased
      cases decoded
      refine ⟨?_, ?_⟩
      · change 2 ^ 52 + _ < 2 ^ 53
        omega
      · change -1074 ≤ (value.toBits.toNat / Nat.pow 2 52 % Nat.pow 2 11 : Nat) - (1075 : Int)
        omega

end Binary64

end EquationMap.Decimal
