import EquationMap.Source.Resolver
import EquationMap.Syntax.Formula
import EquationMap.Syntax.Numbering
import EquationMap.Text.Position
import EquationMap.Text.Utf8

namespace EquationMap

structure Source where
  text : String
  formula : Formula
  spans : SpanTable

namespace Source

def mainFile : String := "/main.typ"

def resolver (source : Source) : Resolver :=
  source.spans.resolve

def size (source : Source) : Nat :=
  Text.byteLength source.text.toList

def textAt (source : Source) (range : ByteRange) : String :=
  String.ofList (Text.slice source.text.toList range.start range.stop)

end Source

end EquationMap
