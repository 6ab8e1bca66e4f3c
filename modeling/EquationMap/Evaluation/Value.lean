import EquationMap.Content.Listing
import EquationMap.Decimal.WrittenForm
import EquationMap.Entries

namespace EquationMap

inductive Builtin where
  | frac | sqrt | root | abs | norm | floor | ceil | lr | vec | mat | cases | binom
  | attach | op | upright | overline | underline
  deriving DecidableEq

namespace Builtin

def name : Builtin → String
  | frac => "frac" | sqrt => "sqrt" | root => "root" | abs => "abs" | norm => "norm"
  | floor => "floor" | ceil => "ceil" | lr => "lr" | vec => "vec" | mat => "mat"
  | cases => "cases" | binom => "binom" | attach => "attach" | op => "op"
  | upright => "upright" | overline => "overline" | underline => "underline"

def all : List Builtin :=
  [frac, sqrt, root, abs, norm, floor, ceil, lr, vec, mat, cases, binom, attach, op,
   upright, overline, underline]

def ofName? (name : String) : Option Builtin :=
  all.find? fun function => function.name = name

end Builtin

/-- What an expression of embedded code evaluates to. -/
inductive Value where
  | none
  | auto
  | bool (value : Bool)
  | int (value : Int)
  /-- A binary number. Its origin, the operation that computed it, tells not-a-numbers apart:
  such a number equals no number, but a collection that holds it equals itself. -/
  | float (value : Float) (origin : Span)
  | str (value : String)
  | symbol (text : String) (limits : Bool)
  | func (function : Builtin)
  | content (content : Content)
  | array (items : List Value)
  | dict (entries : List (String × Value))

namespace Value

def typeName : Value → String
  | none => "none"
  | auto => "auto"
  | bool _ => "boolean"
  | int _ => "integer"
  | float _ _ => "float"
  | str _ => "string"
  | symbol _ _ => "symbol"
  | func _ => "function"
  | content _ => "content"
  | array _ => "array"
  | dict _ => "dictionary"

def quoteString (text : String) : String :=
  String.ofList ('"' :: text.toList.flatMap (fun c => if c = '"' then ['\\', c] else [c]) ++ ['"'])

mutual

/-- The value as embedded code would write it, unless an integer in it is too long. -/
def toCode : Value → Except NumberFault String
  | none => return "none"
  | auto => return "auto"
  | bool true => return "true"
  | bool false => return "false"
  | int value => Decimal.writeInteger value
  | float value _ => return Decimal.toText value
  | str value => return quoteString value
  | symbol text _ => return text
  | func function => return function.name
  | content _ => return "[..]"
  | array [item] => do return "(" ++ (← item.toCode) ++ ",)"
  | array items => do return "(" ++ ", ".intercalate (← itemCodes items) ++ ")"
  | dict [] => return "(:)"
  | dict entries => do return "(" ++ ", ".intercalate (← entryCodes entries) ++ ")"

def itemCodes : List Value → Except NumberFault (List String)
  | [] => return []
  | item :: rest => do
      let code ← item.toCode
      return code :: (← itemCodes rest)

def entryCodes : List (String × Value) → Except NumberFault (List String)
  | [] => return []
  | (key, value) :: rest => do
      let code ← value.toCode
      return (key ++ ": " ++ code) :: (← entryCodes rest)

end

mutual

def listing : Value → Listing
  | none => .absent
  | auto => .word "auto"
  | bool value => .truth value
  | int value => .integer value
  | float value _ => .decimal value
  | str value => .text value
  | symbol text limits => .record "Symbol" [("text", .text text), ("limits", .truth limits)]
  | func function => .word function.name
  | content shown => shown.listing
  | array items => .list (listings items)
  | dict entries => .entries (entryListings entries)

def listings : List Value → List Listing
  | [] => []
  | item :: rest => item.listing :: listings rest

def entryListings : List (String × Value) → List (String × Listing)
  | [] => []
  | (key, value) :: rest => (key, value.listing) :: entryListings rest

end

/-- The value as content shown in mathematics. Content keeps its own span. -/
def display (value : Value) (span : Span) : Except NumberFault Content :=
  match value with
  | content shown => return shown.spanned span
  | none => return .sequence [] span
  | symbol text limits => return .text text false limits span
  | str text => return .text text true false span
  | int _ | float _ _ => do return .plain (← value.toCode) span
  | auto | bool _ | func _ | array _ | dict _ => do
      return .text (← value.toCode) true false span

end Value

end EquationMap
