import EquationMap.Source.ByteRange
import EquationMap.Source.Span

namespace EquationMap

/-- Resolves spans to ranges. A span of another file or with an unknown number has none. -/
abbrev Resolver := Span → Option ByteRange

structure SpanTable where
  file : String
  ranges : List (Int × ByteRange)

def SpanTable.resolve (table : SpanTable) : Resolver
  | .detached => none
  | .numbered file number =>
      if file = table.file then table.ranges.lookup number else none

def Resolver.none : Resolver := fun _ => .none

end EquationMap
