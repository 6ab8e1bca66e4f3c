import EquationMap.Source.Resolver
import EquationMap.Syntax.Node

namespace EquationMap

/-- The numbers from `start` in steps of `step` that do not reach `stop`. -/
structure SpanNumbers where
  start : Int
  stop : Int
  step : Int := 1
  deriving DecidableEq

namespace SpanNumbers

def count (numbers : SpanNumbers) : Nat :=
  if 0 < numbers.step then
    ((numbers.stop - numbers.start + numbers.step - 1) / numbers.step).toNat
  else if numbers.step < 0 then
    ((numbers.start - numbers.stop - numbers.step - 1) / -numbers.step).toNat
  else 0

def get (numbers : SpanNumbers) (index : Nat) : Int :=
  numbers.start + index * numbers.step

def full : SpanNumbers := ⟨2, Nat.pow 2 47, 1⟩

end SpanNumbers

inductive Unnumberable where
  | tooFew (available : Nat)
  | noStep
  deriving DecidableEq

def Unnumberable.message : Unnumberable → String
  | tooFew available => toString available ++ " span numbers are not enough for this tree"
  | noStep => "range() arg 3 must not be zero"

namespace Node

mutual

def size : Node → Nat
  | math exprs _ => 1 + sizeOfList exprs
  | delimited _ body _ _ _ => 4 + sizeOfList body
  | primes _ => 1
  | attach base bottom top marks _ =>
      1 + base.size + sizeOfOption bottom + sizeOfOption top + marks.toList.length
  | frac num denom _ => 1 + num.size + denom.size
  | root _ radicand _ => 1 + radicand.size
  | parenthesized expr _ | named _ expr _ | spread expr _ | unary _ expr _
  | field expr _ _ => 1 + expr.size
  | keyed key expr _ => 1 + key.size + expr.size
  | array items _ | dict items _ => 1 + sizeOfList items
  | contentBlock body _ _ => 2 + sizeOfList body
  | call callee args _ _ => 2 + callee.size + sizeOfList args
  | binary lhs _ rhs _ => 1 + lhs.size + rhs.size
  | text _ _ | mathIdent _ _ | shorthand _ _ _ | alignPoint _ | linebreak _ | ident _ _
  | int _ _ | float _ _ | str _ _ | bool _ _ | noneLit _ | autoLit _ => 1

def sizeOfList : List Node → Nat
  | [] => 0
  | node :: rest => node.size + sizeOfList rest

def sizeOfOption : Option Node → Nat
  | none => 0
  | some node => node.size

end

end Node

namespace Place

def withSpan (place : Place) (span : Span) : Place :=
  { place with span }

end Place

namespace Node

variable (spans : Nat → Span)

mutual

/-- The tree with the span of its `k`-th node replaced by the one at `index + k`. -/
def respan (index : Nat) : Node → Node
  | math exprs place => math (respanList (index + 1) exprs) (place.withSpan (spans index))
  | text written place => text written (place.withSpan (spans index))
  | mathIdent name place => mathIdent name (place.withSpan (spans index))
  | shorthand written symbol place => shorthand written symbol (place.withSpan (spans index))
  | alignPoint place => alignPoint (place.withSpan (spans index))
  | linebreak place => linebreak (place.withSpan (spans index))
  | delimited opening body bodyPlace closing place =>
      delimited ⟨opening.text, opening.place.withSpan (spans (index + 1))⟩
        (respanList (index + 3) body) (bodyPlace.withSpan (spans (index + 2)))
        ⟨closing.text, closing.place.withSpan (spans (index + 3 + sizeOfList body))⟩
        (place.withSpan (spans index))
  | primes marks => primes ⟨marks.count, marks.place.withSpan (spans index)⟩
  | attach base bottom top marks place =>
      let afterBase := index + 1 + base.size
      let afterBottom := afterBase + sizeOfOption bottom
      let afterTop := afterBottom + sizeOfOption top
      attach (base.respan (index + 1)) (respanOption afterBase bottom)
        (respanOption afterBottom top)
        (marks.map fun marks => ⟨marks.count, marks.place.withSpan (spans afterTop)⟩)
        (place.withSpan (spans index))
  | frac num denom place =>
      frac (num.respan (index + 1)) (denom.respan (index + 1 + num.size))
        (place.withSpan (spans index))
  | root degree radicand place =>
      root degree (radicand.respan (index + 1)) (place.withSpan (spans index))
  | ident name place => ident name (place.withSpan (spans index))
  | int value place => int value (place.withSpan (spans index))
  | float value place => float value (place.withSpan (spans index))
  | str value place => str value (place.withSpan (spans index))
  | bool value place => bool value (place.withSpan (spans index))
  | noneLit place => noneLit (place.withSpan (spans index))
  | autoLit place => autoLit (place.withSpan (spans index))
  | parenthesized expr place =>
      parenthesized (expr.respan (index + 1)) (place.withSpan (spans index))
  | named name expr place => named name (expr.respan (index + 1)) (place.withSpan (spans index))
  | keyed key expr place =>
      keyed (key.respan (index + 1)) (expr.respan (index + 1 + key.size))
        (place.withSpan (spans index))
  | spread expr place => spread (expr.respan (index + 1)) (place.withSpan (spans index))
  | array items place => array (respanList (index + 1) items) (place.withSpan (spans index))
  | dict items place => dict (respanList (index + 1) items) (place.withSpan (spans index))
  | contentBlock body bodyPlace place =>
      contentBlock (respanList (index + 2) body) (bodyPlace.withSpan (spans (index + 1)))
        (place.withSpan (spans index))
  | call callee args argsPlace place =>
      let afterCallee := index + 1 + callee.size
      call (callee.respan (index + 1)) (respanList (afterCallee + 1) args)
        (argsPlace.withSpan (spans afterCallee)) (place.withSpan (spans index))
  | field target name place => field (target.respan (index + 1)) name (place.withSpan (spans index))
  | binary lhs op rhs place =>
      binary (lhs.respan (index + 1)) op (rhs.respan (index + 1 + lhs.size))
        (place.withSpan (spans index))
  | unary op expr place => unary op (expr.respan (index + 1)) (place.withSpan (spans index))

def respanList (index : Nat) : List Node → List Node
  | [] => []
  | node :: rest => node.respan index :: respanList (index + node.size) rest

def respanOption (index : Nat) : Option Node → Option Node
  | none => none
  | some node => some (node.respan index)

end

end Node

/-- Numbers the nodes of a formula, and tells the range of each number. -/
def Formula.number (formula : Formula) (file : String) (numbers : SpanNumbers) :
    Except Unnumberable (Formula × SpanTable) :=
  let places := formula.node.places
  if numbers.step = 0 then .error .noStep
  else if numbers.count < places.length then .error (.tooFew numbers.count)
  else
    let spans index := Span.numbered file (numbers.get index)
    let numbered : Formula :=
      ⟨Node.respanList spans 1 formula.exprs, formula.place.withSpan (spans 0)⟩
    let ranges := places.zipIdx.map fun (place, index) => (numbers.get index, place.range)
    .ok (numbered, ⟨file, ranges⟩)

end EquationMap
