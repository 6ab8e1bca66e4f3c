import EquationMap.Decimal.Fault
import EquationMap.Decimal.Shortest

namespace EquationMap.Decimal

/-- Decisions of a written form: from which powers of ten on the exponent is written out. -/
structure WrittenForm where
  leastPositional : Int
  greatestPositional : Int
  infinity : String
  notANumber : String

/-- Numbers from one ten-thousandth up to ten thousand million million are written
positionally, the others with a signed exponent of at least two digits. -/
def plain : WrittenForm := ⟨-3, 16, "inf", "nan"⟩

def naturalDigits (value : Nat) : List Char := Nat.toDigits 10 value

def isWritable (value : Int) : Bool :=
  value.natAbs < Nat.pow 10 digitLimit

def writeInteger (value : Int) : Except NumberFault String :=
  if isWritable value then .ok (toString value) else .error .integerTooLong

def zeros (count : Nat) : List Char := List.replicate count '0'

/-- Positional digits around a decimal point, with at least one digit on each side. -/
def positional (digits : List Char) (point : Int) : List Char :=
  if point ≤ 0 then '0' :: '.' :: zeros (-point).toNat ++ digits
  else
    let whole := point.toNat
    if digits.length ≤ whole then digits ++ zeros (whole - digits.length) ++ ['.', '0']
    else digits.take whole ++ '.' :: digits.drop whole

def exponential (digits : List Char) (power : Int) : List Char :=
  let size := naturalDigits power.natAbs
  let padded := zeros (2 - size.length) ++ size
  let sign := if power < 0 then '-' else '+'
  let significand :=
    match digits with
    | [] => []
    | [digit] => [digit]
    | digit :: rest => digit :: '.' :: rest
  significand ++ 'e' :: sign :: padded

def WrittenForm.magnitude (form : WrittenForm) (number : Binary64) : List Char :=
  if number.mantissa = 0 then ['0', '.', '0']
  else
    let decimal := shortest number
    let digits := naturalDigits decimal.digits
    if form.leastPositional ≤ decimal.point ∧ decimal.point ≤ form.greatestPositional then
      positional digits decimal.point
    else exponential digits (decimal.point - 1)

def signed (negative : Bool) (text : List Char) : List Char :=
  if negative then '-' :: text else text

def WrittenForm.write (form : WrittenForm) (value : Float) : String :=
  match Binary64.ofFloat? value with
  | some number => String.ofList (signed number.negative (form.magnitude number))
  | none =>
      if value.isNaN then form.notANumber
      else if value < 0.0 then "-" ++ form.infinity else form.infinity

def toText (value : Float) : String := plain.write value

/-- The text of a number with a fixed number of decimal places, rounded exactly, a half to
the even neighbour. -/
def toFixed (places : Nat) (value : Float) : String :=
  match Binary64.ofFloat? value with
  | none => toText value
  | some number =>
      let (numerator, denominator) := number.magnitude
      let scaled := roundQuotient (numerator * Nat.pow 10 places) denominator
      let digits := naturalDigits scaled
      let padded := zeros (places + 1 - digits.length) ++ digits
      let whole := padded.length - places
      let text :=
        if places = 0 then padded else padded.take whole ++ '.' :: padded.drop whole
      String.ofList (signed number.negative text)

end EquationMap.Decimal
