import EquationMap.Decimal.Numeral
import EquationMap.Source.ByteRange
import EquationMap.Source.Span

namespace EquationMap

/-- Where a node was written, and the span that links it to what it produces. -/
structure Place where
  range : ByteRange
  span : Span := .detached
  deriving DecidableEq

inductive BinaryOp where
  | or | and | eq | ne | lt | le | gt | ge | add | sub | mul | div
  deriving DecidableEq

inductive UnaryOp where
  | negate | plus | not
  deriving DecidableEq

def BinaryOp.symbol : BinaryOp → String
  | or => "or" | and => "and" | eq => "==" | ne => "!=" | lt => "<" | le => "<="
  | gt => ">" | ge => ">=" | add => "+" | sub => "-" | mul => "*" | div => "/"

def UnaryOp.symbol : UnaryOp → String
  | negate => "-" | plus => "+" | not => "not"

structure Delimiter where
  text : String
  place : Place
  deriving DecidableEq

structure Primes where
  count : Nat
  place : Place
  deriving DecidableEq

inductive Node where
  | math (exprs : List Node) (place : Place)
  | text (text : String) (place : Place)
  | mathIdent (name : String) (place : Place)
  | shorthand (text symbol : String) (place : Place)
  | alignPoint (place : Place)
  | linebreak (place : Place)
  | delimited (opening : Delimiter) (body : List Node) (bodyPlace : Place)
      (closing : Delimiter) (place : Place)
  | primes (primes : Primes)
  | attach (base : Node) (bottom top : Option Node) (primes : Option Primes) (place : Place)
  | frac (num denom : Node) (place : Place)
  | root (degree : Option Nat) (radicand : Node) (place : Place)
  | ident (name : String) (place : Place)
  | int (value : Nat) (place : Place)
  | float (value : Decimal.Numeral) (place : Place)
  | str (value : String) (place : Place)
  | bool (value : Bool) (place : Place)
  | noneLit (place : Place)
  | autoLit (place : Place)
  | parenthesized (expr : Node) (place : Place)
  | named (name : String) (expr : Node) (place : Place)
  | keyed (key expr : Node) (place : Place)
  | spread (expr : Node) (place : Place)
  | array (items : List Node) (place : Place)
  | dict (items : List Node) (place : Place)
  | contentBlock (body : List Node) (bodyPlace : Place) (place : Place)
  | call (callee : Node) (args : List Node) (argsPlace : Place) (place : Place)
  | field (target : Node) (name : String) (place : Place)
  | binary (lhs : Node) (op : BinaryOp) (rhs : Node) (place : Place)
  | unary (op : UnaryOp) (expr : Node) (place : Place)

namespace Node

def place : Node → Place
  | math _ place | text _ place | mathIdent _ place | shorthand _ _ place
  | alignPoint place | linebreak place | delimited _ _ _ _ place | attach _ _ _ _ place
  | frac _ _ place | root _ _ place | ident _ place | int _ place | float _ place
  | str _ place | bool _ place | noneLit place | autoLit place | parenthesized _ place
  | named _ _ place | keyed _ _ place | spread _ place | array _ place | dict _ place
  | contentBlock _ _ place | call _ _ _ place | field _ _ place | binary _ _ _ place
  | unary _ _ place => place
  | primes marks => marks.place

def range (node : Node) : ByteRange := node.place.range

def span (node : Node) : Span := node.place.span

mutual

/-- The places of a node and of all nodes in it, every node before its parts and the parts in
the order in which they are declared. -/
def places : Node → List Place
  | math exprs place => place :: placesOfList exprs
  | delimited opening body bodyPlace closing place =>
      place :: opening.place :: bodyPlace :: placesOfList body ++ [closing.place]
  | primes marks => [marks.place]
  | attach base bottom top marks place =>
      place :: base.places ++ placesOfOption bottom ++ placesOfOption top ++
        (marks.map Primes.place).toList
  | frac num denom place => place :: num.places ++ denom.places
  | root _ radicand place => place :: radicand.places
  | parenthesized expr place | named _ expr place | spread expr place
  | unary _ expr place | field expr _ place => place :: expr.places
  | keyed key expr place => place :: key.places ++ expr.places
  | array items place | dict items place => place :: placesOfList items
  | contentBlock body bodyPlace place => place :: bodyPlace :: placesOfList body
  | call callee args argsPlace place =>
      place :: callee.places ++ argsPlace :: placesOfList args
  | binary lhs _ rhs place => place :: lhs.places ++ rhs.places
  | text _ place | mathIdent _ place | shorthand _ _ place | alignPoint place
  | linebreak place | ident _ place | int _ place | float _ place | str _ place
  | bool _ place | noneLit place | autoLit place => [place]

def placesOfList : List Node → List Place
  | [] => []
  | node :: rest => node.places ++ placesOfList rest

def placesOfOption : Option Node → List Place
  | none => []
  | some node => node.places

end

end Node

structure Formula where
  exprs : List Node
  place : Place

def Formula.node (formula : Formula) : Node :=
  .math formula.exprs formula.place

end EquationMap
