import EquationMap.Source.ByteRange

namespace EquationMap

inductive Severity where
  | error | warning | note
  deriving DecidableEq

def Severity.name : Severity → String
  | error => "error"
  | warning => "warning"
  | note => "note"

structure Label where
  range : Option ByteRange
  message : String := ""
  deriving DecidableEq

/-- A message about the source text, with the places it is about and further notes. -/
structure Diagnostic where
  severity : Severity
  code : String
  message : String
  labels : List Label := []
  notes : List String := []
  deriving DecidableEq

namespace Diagnostic

def range? (diagnostic : Diagnostic) : Option ByteRange :=
  diagnostic.labels.findSome? Label.range

def error (code message : String) (range : Option ByteRange) : Diagnostic :=
  { severity := .error, code, message, labels := [{ range }] }

def summary (diagnostics : List Diagnostic) : String :=
  toString diagnostics.length ++ " error(s): " ++
    "; ".intercalate (diagnostics.map Diagnostic.message)

end Diagnostic

end EquationMap
