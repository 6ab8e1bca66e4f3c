namespace EquationMap.Decimal

/-- The quotient of two naturals rounded to the nearest natural, a half to the even one. -/
def roundQuotient (numerator denominator : Nat) : Nat :=
  let quotient := numerator / denominator
  let twice := 2 * (numerator % denominator)
  if twice < denominator then quotient
  else if denominator < twice then quotient + 1
  else quotient + quotient % 2

/-- The finite number `mantissa * 2 ^ exponent`, negated if so marked. -/
structure Binary64 where
  negative : Bool
  mantissa : Nat
  exponent : Int
  deriving DecidableEq, Repr

namespace Binary64

/-- The exact quantity of a finite number; infinities and not-a-number have none. -/
def ofFloat? (value : Float) : Option Binary64 :=
  let bits := value.toBits.toNat
  let negative := decide (Nat.pow 2 63 ≤ bits)
  let biased : Nat := bits / Nat.pow 2 52 % Nat.pow 2 11
  let fraction := bits % Nat.pow 2 52
  if biased = 2047 then none
  else if biased = 0 then some ⟨negative, fraction, -1074⟩
  else some ⟨negative, Nat.pow 2 52 + fraction, biased - 1075⟩

/-- Whether the number just below is only half as far away as the number just above. -/
def narrowBelow (number : Binary64) : Bool :=
  number.mantissa = Nat.pow 2 52 && decide (-1074 < number.exponent)

def magnitude (number : Binary64) : Nat × Nat :=
  (number.mantissa * Nat.pow 2 number.exponent.toNat, Nat.pow 2 (-number.exponent).toNat)

def toInt? (number : Binary64) : Option Int :=
  let (numerator, denominator) := number.magnitude
  if numerator % denominator = 0 then
    let size : Int := (numerator / denominator : Nat)
    some (if number.negative then -size else size)
  else none

end Binary64

def roundingExponent (numerator denominator : Nat) : Int :=
  let estimate : Int := (numerator.log2 : Int) - denominator.log2
  let tooHigh := numerator * Nat.pow 2 (-estimate).toNat < denominator * Nat.pow 2 estimate.toNat
  max (-1074) ((if tooHigh then estimate - 1 else estimate) - 52)

/-- The bits of a positive quotient rounded to the nearest number, as if the exponent had no
upper bound. -/
def quotientBits (numerator denominator : Nat) : Nat :=
  let exponent := roundingExponent numerator denominator
  let mantissa :=
    roundQuotient (numerator * Nat.pow 2 (-exponent).toNat) (denominator * Nat.pow 2 exponent.toNat)
  (exponent + 1074).toNat * Nat.pow 2 52 + mantissa

/-- The number nearest to a quotient with a positive denominator, unless it lies beyond the
greatest finite number. -/
def ofQuotient? (negative : Bool) (numerator denominator : Nat) : Option Float :=
  let bits := if numerator = 0 then 0 else quotientBits numerator denominator
  if bits < 2047 * Nat.pow 2 52 then
    some (Float.ofBits (UInt64.ofNat (if negative then Nat.pow 2 63 + bits else bits)))
  else none

/-- The number nearest to an integer, unless it lies beyond the greatest finite number. -/
def ofInt? (value : Int) : Option Float :=
  ofQuotient? (decide (value < 0)) value.natAbs 1

def compareInt (value : Int) (number : Binary64) : Ordering :=
  let (numerator, denominator) := number.magnitude
  let other : Int := if number.negative then -(numerator : Int) else numerator
  compare (value * denominator) other

end EquationMap.Decimal
