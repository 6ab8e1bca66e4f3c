import EquationMap.Decimal.Binary64
import EquationMap.Decimal.Count
import EquationMap.Evaluation.Evaluation
import EquationMap.Evaluation.Value
import EquationMap.Syntax.Node

namespace EquationMap

/-- A number of either sort. Integers are exact, the others binary floating point. -/
inductive Number where
  | int (value : Int)
  | float (value : Float)

namespace Number

def toValue (number : Number) (span : Span) : Value :=
  match number with
  | int value => .int value
  | float value => .float value span

def toFloat : Number → Except NumberFault Float
  | int value =>
      match Decimal.ofInt? value with
      | some converted => .ok converted
      | none => .error .integerTooLarge
  | float value => .ok value

def compare? : Number → Number → Option Ordering
  | int left, int right => some (compare left right)
  | int left, float right => compareWithFloat left right
  | float left, int right => (compareWithFloat right left).map Ordering.swap
  | float left, float right =>
      if left < right then some .lt
      else if right < left then some .gt
      else if left == right then some .eq
      else none
where
  compareWithFloat (left : Int) (right : Float) : Option Ordering :=
    match Decimal.Binary64.ofFloat? right with
    | some number => some (Decimal.compareInt left number)
    | none => if right.isNaN then none else if right < 0.0 then some .gt else some .lt

/-- Applies an operation on integers exactly, and one on the others after converting. -/
def combine (exact : Int → Int → Int) (rounded : Float → Float → Float) :
    Number → Number → Except NumberFault Number
  | int left, int right => .ok (.int (exact left right))
  | left, right => do
      let left ← left.toFloat
      let right ← right.toFloat
      return .float (rounded left right)

def isZero : Number → Bool
  | int value => value = 0
  | float value => value == 0.0

/-- The quotient by a number that is not zero. A quotient of integers is rounded; if that
gives an integer, the result is one. -/
def divide : Number → Number → Except NumberFault Number
  | int left, int right =>
      let negative := decide (left < 0) != decide (right < 0)
      match Decimal.ofQuotient? negative left.natAbs right.natAbs with
      | none => .error .quotientTooLarge
      | some quotient =>
          match (Decimal.Binary64.ofFloat? quotient).bind Decimal.Binary64.toInt? with
          | some whole => .ok (.int whole)
          | none => .ok (.float quotient)
  | left, right => do
      let left ← left.toFloat
      let right ← right.toFloat
      return .float (left / right)

def negate : Number → Number
  | int value => .int (-value)
  | float value => .float (-value)

end Number

namespace Value

def number? : Value → Option Number
  | int value => some (.int value)
  | float value _ => some (.float value)
  | _ => Option.none

/-- The number that a number or a truth value counts as in a comparison. -/
def counted? : Value → Option Number
  | bool value => some (.int (if value then 1 else 0))
  | value => value.number?

def sameNotANumber : Value → Value → Bool
  | float left origin, float right origin' => left.isNaN && right.isNaN && origin = origin'
  | _, _ => false

mutual

/-- Equality of values. Numbers are equal if their quantities are, and a truth value equals
the number it counts as; the order of a dictionary does not matter. -/
def equal : Value → Value → Bool
  | none, none => true
  | auto, auto => true
  | str left, str right => left = right
  | symbol left limits, symbol right limits' => left = right && limits = limits'
  | func left, func right => left = right
  | content left, content right => left.same right
  | array left, array right => equalItems left right
  | dict left, dict right => left.length = right.length && equalEntries left right
  | left, right =>
      match left.counted?, right.counted? with
      | some left, some right => left.compare? right == some .eq
      | _, _ => false

def equalItems : List Value → List Value → Bool
  | [], [] => true
  | left :: lefts, right :: rights =>
      (sameNotANumber left right || left.equal right) && equalItems lefts rights
  | _, _ => false

def equalEntries : List (String × Value) → List (String × Value) → Bool
  | [], _ => true
  | (key, left) :: rest, right =>
      (match right.lookup key with
        | some value => sameNotANumber left value || left.equal value
        | Option.none => false) &&
        equalEntries rest right

end

def order? (left right : Value) : Option (Option Ordering) :=
  match left, right with
  | str left, str right =>
      some (some (if left < right then .lt else if right < left then .gt else .eq))
  | left, right => do
      let left ← left.number?
      let right ← right.number?
      return left.compare? right

end Value

namespace BinaryOp

def accepts (op : BinaryOp) (ordering : Option Ordering) : Bool :=
  match op, ordering with
  | lt, some .lt => true
  | le, some .lt | le, some .eq => true
  | gt, some .gt => true
  | ge, some .gt | ge, some .eq => true
  | _, _ => false

def ofNumber (result : Except NumberFault Number) (span : Span) : Evaluation Value :=
  match result with
  | .ok number => return number.toValue span
  | .error fault => Evaluation.failNumber fault

/-- Applies an operator to two values. The spans of the operands are for content made of
them, that of the whole expression for the result and for errors. -/
def apply (op : BinaryOp) (left right : Value) (leftSpan rightSpan span : Span) :
    Evaluation Value :=
  let invalid : Evaluation Value :=
    Evaluation.fail (.invalidOperands op.symbol left.typeName right.typeName) span
  match op with
  | eq => return .bool (left.equal right)
  | ne => return .bool (!left.equal right)
  | lt | le | gt | ge =>
      match left.order? right with
      | some ordering => return .bool (op.accepts ordering)
      | none => invalid
  | add =>
      match left, right with
      | .str left, .str right => return .str (left ++ right)
      | .array left, .array right => return .array (left ++ right)
      | .content _, _ | _, .content _ => do
          let left ← Evaluation.lift (left.display leftSpan)
          let right ← Evaluation.lift (right.display rightSpan)
          return .content (.sequence [left, right] span)
      | _, _ =>
          match left.number?, right.number? with
          | some left, some right => ofNumber (left.combine (· + ·) (· + ·) right) span
          | _, _ => invalid
  | sub =>
      match left.number?, right.number? with
      | some left, some right => ofNumber (left.combine (· - ·) (· - ·) right) span
      | _, _ => invalid
  | mul =>
      match left, right with
      | .str text, .int count =>
          match Count.repeatText text count with
          | .ok text => return .str text
          | .error fault => Evaluation.failNumber fault
      | .array items, .int count =>
          match Count.repeatList items count with
          | .ok items => return .array items
          | .error fault => Evaluation.failNumber fault
      | _, _ =>
          match left.number?, right.number? with
          | some left, some right => ofNumber (left.combine (· * ·) (· * ·) right) span
          | _, _ => invalid
  | div =>
      match left.number?, right.number? with
      | some left, some right =>
          if right.isZero then Evaluation.fail .divisionByZero span
          else ofNumber (left.divide right) span
      | _, _ => invalid
  | and | or => invalid

end BinaryOp

namespace UnaryOp

def apply (op : UnaryOp) (value : Value) (span : Span) : Evaluation Value :=
  match op, value, value.number? with
  | not, .bool value, _ => return .bool !value
  | plus, value, some _ => return value
  | negate, _, some number => return number.negate.toValue span
  | _, _, _ => Evaluation.fail (.invalidOperand op.symbol value.typeName) span

end UnaryOp

end EquationMap
