import EquationMap.Syntax.Node

namespace EquationMap

mutual

inductive Outline where
  | node (name : String) (place : Place) (details : List Detail)

inductive Detail where
  | absent (name : String)
  | text (name value : String)
  | count (name : String) (value : Nat)
  | integer (name : String) (value : Nat)
  | decimal (name : String) (value : Decimal.Numeral)
  | truth (name : String) (value : Bool)
  | part (name : String) (outline : Outline)
  | parts (name : String) (outlines : List Outline)

end

namespace Outline

def name : Outline → String
  | node name _ _ => name

def place : Outline → Place
  | node _ place _ => place

def details : Outline → List Detail
  | node _ _ details => details

end Outline

def Delimiter.outline (delimiter : Delimiter) : Outline :=
  .node "MathText" delimiter.place [.text "text" delimiter.text]

def Primes.outline (primes : Primes) : Outline :=
  .node "MathPrimes" primes.place [.count "count" primes.count]

def Primes.detail : Option Primes → Detail
  | none => .absent "primes"
  | some primes => .part "primes" primes.outline

namespace Node

mutual

def outline : Node → Outline
  | math exprs place => .node "Math" place [.parts "exprs" (outlines exprs)]
  | text written place => .node "MathText" place [.text "text" written]
  | mathIdent name place => .node "MathIdent" place [.text "name" name]
  | shorthand written symbol place =>
      .node "MathShorthand" place [.text "text" written, .text "symbol" symbol]
  | alignPoint place => .node "MathAlignPoint" place []
  | linebreak place => .node "Linebreak" place []
  | delimited opening body bodyPlace closing place =>
      .node "MathDelimited" place
        [.part "open" opening.outline,
         .part "body" (.node "Math" bodyPlace [.parts "exprs" (outlines body)]),
         .part "close" closing.outline]
  | primes marks => marks.outline
  | attach base bottom top marks place =>
      .node "MathAttach" place
        [.part "base" base.outline, script "bottom" bottom, script "top" top,
         Primes.detail marks]
  | frac num denom place =>
      .node "MathFrac" place [.part "num" num.outline, .part "denom" denom.outline]
  | root degree radicand place =>
      .node "MathRoot" place
        [degree.elim (.absent "index") (.count "index"), .part "radicand" radicand.outline]
  | ident name place => .node "Ident" place [.text "name" name]
  | int value place => .node "Int" place [.integer "value" value]
  | float value place => .node "Float" place [.decimal "value" value]
  | str value place => .node "Str" place [.text "value" value]
  | bool value place => .node "Bool" place [.truth "value" value]
  | noneLit place => .node "NoneLit" place []
  | autoLit place => .node "AutoLit" place []
  | parenthesized expr place => .node "Parenthesized" place [.part "expr" expr.outline]
  | named name expr place =>
      .node "Named" place [.text "name" name, .part "expr" expr.outline]
  | keyed key expr place =>
      .node "Keyed" place [.part "key" key.outline, .part "expr" expr.outline]
  | spread expr place => .node "Spread" place [.part "expr" expr.outline]
  | array items place => .node "Array" place [.parts "items" (outlines items)]
  | dict items place => .node "Dict" place [.parts "items" (outlines items)]
  | contentBlock body bodyPlace place =>
      .node "ContentBlock" place
        [.part "body" (.node "Math" bodyPlace [.parts "exprs" (outlines body)])]
  | call callee args argsPlace place =>
      .node "FuncCall" place
        [.part "callee" callee.outline,
         .part "args" (.node "Args" argsPlace [.parts "items" (outlines args)])]
  | field target name place =>
      .node "FieldAccess" place [.part "target" target.outline, .text "field" name]
  | binary lhs op rhs place =>
      .node "Binary" place
        [.part "lhs" lhs.outline, .text "op" op.symbol, .part "rhs" rhs.outline]
  | unary op expr place =>
      .node "Unary" place [.text "op" op.symbol, .part "expr" expr.outline]

def outlines : List Node → List Outline
  | [] => []
  | node :: rest => node.outline :: outlines rest

def script (name : String) : Option Node → Detail
  | none => .absent name
  | some node => .part name node.outline

end

def kindName (node : Node) : String :=
  node.outline.name

end Node

end EquationMap
