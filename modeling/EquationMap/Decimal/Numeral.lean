import EquationMap.Decimal.Binary64
import EquationMap.Decimal.Fault
import EquationMap.Text.Digit

namespace EquationMap.Decimal

/-- The decimal fraction `mantissa / 10 ^ places`, exactly as a source text writes it. -/
structure Numeral where
  mantissa : Nat
  places : Nat
  deriving DecidableEq, Repr

namespace Numeral

/-- The nearest binary number; a numeral beyond the greatest one stands for infinity. -/
def toFloat (numeral : Numeral) : Float :=
  (ofQuotient? false numeral.mantissa (Nat.pow 10 numeral.places)).getD (1.0 / 0.0)

end Numeral

def readDigits (start : Nat) : List Char → Option Nat
  | [] => some start
  | c :: rest => do
      let value ← Text.decimalValue? c
      readDigits (10 * start + value) rest

def readNatural? (text : List Char) : Option Nat :=
  readDigits 0 text

/-- Reads an integer numeral. The digits that it starts with are counted first. -/
def readInteger (text : String) : Except NumberFault Nat :=
  let digits := (text.toList.takeWhile fun c => (Text.decimalValue? c).isSome).length
  if digitLimit < digits then .error (.numeralTooLong digits)
  else
    match readNatural? text.toList with
    | some value => .ok value
    | none => .error (.integerNumeral text)

def readNumeral? (text : List Char) : Option Numeral := do
  let whole := text.takeWhile (· ≠ '.')
  let fraction := text.drop (whole.length + 1)
  let mantissa ← readDigits 0 (whole ++ fraction)
  return ⟨mantissa, fraction.length⟩

end EquationMap.Decimal
