import EquationMap.Decimal.Binary64

namespace EquationMap.Decimal

/-- The positive decimal `0.d₁d₂… * 10 ^ point`, its digits read as one natural. -/
structure Digits where
  digits : Nat
  point : Int
  deriving DecidableEq, Repr

/-- Compares `digits * 10 ^ scale` with `quarters * 2 ^ (exponent - 2)`. -/
def compareScaled (digits : Nat) (scale : Int) (quarters : Nat) (exponent : Int) : Ordering :=
  compare (digits * Nat.pow 10 scale.toNat * Nat.pow 2 (2 - exponent).toNat)
    (quarters * Nat.pow 2 (exponent - 2).toNat * Nat.pow 10 (-scale).toNat)

/-- Whether the decimal `digits * 10 ^ scale` rounds to the number. The ends of the interval
belong to it exactly when the mantissa is even. -/
def readsBack (number : Binary64) (digits : Nat) (scale : Int) : Bool :=
  let low := 4 * number.mantissa - (if number.narrowBelow then 1 else 2)
  let high := 4 * number.mantissa + 2
  let closed := number.mantissa % 2 = 0
  let fromLow := compareScaled digits scale low number.exponent
  let toHigh := compareScaled digits scale high number.exponent
  (fromLow == .gt || (closed && fromLow == .eq)) &&
    (toHigh == .lt || (closed && toHigh == .eq))

def leadingPoint (number : Binary64) : Int :=
  let (numerator, denominator) := number.magnitude
  let estimate : Int :=
    (((numerator.log2 : Int) - denominator.log2) * 30103).fdiv 100000
  let reached (point : Int) : Bool :=
    decide (denominator * Nat.pow 10 point.toNat ≤ numerator * Nat.pow 10 (-point).toNat)
  if reached (estimate + 1) then estimate + 2
  else if reached estimate then estimate + 1
  else estimate

/-- The natural just below the number on the grid of multiples of `10 ^ scale`. -/
def gridFloor (number : Binary64) (scale : Int) : Nat :=
  let (numerator, denominator) := number.magnitude
  numerator * Nat.pow 10 (-scale).toNat / (denominator * Nat.pow 10 scale.toNat)

/-- The better of the two neighbours on a grid that read back, if any does. -/
def onGrid? (number : Binary64) (scale : Int) : Option Nat :=
  let below := gridFloor number scale
  match readsBack number below scale, readsBack number (below + 1) scale with
  | false, false => none
  | true, false => some below
  | false, true => some (below + 1)
  | true, true =>
      match compareScaled (2 * below + 1) scale (8 * number.mantissa) number.exponent with
      | .gt => some below
      | .lt => some (below + 1)
      | .eq => some (below + below % 2)

def searchGrids (number : Binary64) (point : Int) (count : Nat) : Nat → Option Nat × Nat
  | 0 => (none, count)
  | fuel + 1 =>
      match onGrid? number (point - count) with
      | some digits => (some digits, count)
      | none => searchGrids number point (count + 1) fuel

def stripZeros (digits : Nat) : Nat → Nat
  | 0 => digits
  | fuel + 1 => if digits % 10 = 0 then stripZeros (digits / 10) fuel else digits

/-- The shortest decimal of a positive number. Seventeen digits always suffice. -/
def shortest (number : Binary64) : Digits :=
  let point := leadingPoint number
  match searchGrids number point 1 17 with
  | (some digits, count) =>
      if digits = Nat.pow 10 count then ⟨1, point + 1⟩ else ⟨stripZeros digits 17, point⟩
  | (none, count) => ⟨gridFloor number (point - count), point⟩

end EquationMap.Decimal
