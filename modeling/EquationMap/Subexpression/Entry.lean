import EquationMap.Source.Resolver
import EquationMap.Syntax.Node
import EquationMap.Text.Utf8

namespace EquationMap

/-- A subexpression: the span of its node, its range, and the text there. -/
structure Entry where
  span : Span
  range : ByteRange
  text : String
  deriving DecidableEq

namespace Entry

variable (resolver : Resolver) (text : List Char)

/-- Adds an entry for a span, unless its range is unknown, ends after the text or is listed
already. Entries are kept latest first. -/
def add (span : Span) (found : List Entry) : List Entry :=
  match resolver span with
  | none => found
  | some range =>
      if range.stop ≤ Text.byteLength text ∧ ¬found.any (·.range = range) then
        ⟨span, range, String.ofList (Text.slice text range.start range.stop)⟩ :: found
      else found

mutual

/-- Adds the entries of a node and of its subexpressions. Fields, and the named and spread
arguments of calls, are no subexpressions. -/
def visit (found : List Entry) : Node → List Entry
  | .math exprs place => visitAll (add resolver text place.span found) exprs
  | .frac num denom place => visit (visit (add resolver text place.span found) num) denom
  | .attach base bottom top _ place =>
      visitOption (visitOption (visit (add resolver text place.span found) base) bottom) top
  | .root _ radicand place => visit (add resolver text place.span found) radicand
  | .delimited _ body _ _ place => visitAll (add resolver text place.span found) body
  | .call callee args _ place =>
      visitArguments (visit (add resolver text place.span found) callee) args
  | .parenthesized expr place => visit (add resolver text place.span found) expr
  | .array items place => visitItems (add resolver text place.span found) items
  | .dict items place => visitPairs (add resolver text place.span found) items
  | .contentBlock body _ place => visitAll (add resolver text place.span found) body
  | .binary lhs _ rhs place => visit (visit (add resolver text place.span found) lhs) rhs
  | .unary _ expr place => visit (add resolver text place.span found) expr
  | .primes marks => add resolver text marks.place.span found
  | .text _ place | .mathIdent _ place | .shorthand _ _ place | .alignPoint place
  | .linebreak place | .ident _ place | .int _ place | .float _ place | .str _ place
  | .bool _ place | .noneLit place | .autoLit place | .named _ _ place | .keyed _ _ place
  | .spread _ place | .field _ _ place => add resolver text place.span found

def visitAll (found : List Entry) : List Node → List Entry
  | [] => found
  | node :: rest => visitAll (visit found node) rest

def visitOption (found : List Entry) : Option Node → List Entry
  | none => found
  | some node => visit found node

def visitArguments (found : List Entry) : List Node → List Entry
  | [] => found
  | .named _ _ _ :: rest | .spread _ _ :: rest => visitArguments found rest
  | node :: rest => visitArguments (visit found node) rest

def visitItems (found : List Entry) : List Node → List Entry
  | [] => found
  | .spread expr _ :: rest => visitItems (visit found expr) rest
  | node :: rest => visitItems (visit found node) rest

def visitPairs (found : List Entry) : List Node → List Entry
  | [] => found
  | .keyed key expr _ :: rest => visitPairs (visit (visit found key) expr) rest
  | .named _ expr _ :: rest | .spread expr _ :: rest => visitPairs (visit found expr) rest
  | _ :: rest => visitPairs found rest

end

end Entry

/-- The subexpressions of a node, the node itself first, one for each range. -/
def Node.entries (node : Node) (resolver : Resolver) (text : String) : List Entry :=
  (Entry.visit resolver text.toList [] node).reverse

end EquationMap
