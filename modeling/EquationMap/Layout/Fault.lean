import EquationMap.Outcome
import EquationMap.Source.Diagnostic
import EquationMap.Source.Resolver

namespace EquationMap

def maxLayoutDepth : Nat := 64

inductive LayoutFault where
  | missingGlyph (c : Char) (families : List String)
  | tooDeep
  | missingFamilies (families : List String)
  deriving DecidableEq

namespace LayoutFault

def code : LayoutFault → String
  | missingGlyph _ _ => "E401"
  | tooDeep => "E402"
  | missingFamilies _ => "E403"

def message : LayoutFault → String
  | missingGlyph c families =>
      "no glyph for \"" ++ c.toString ++ "\" in font family " ++ ", ".intercalate families
  | tooDeep => "maximum math nesting depth of " ++ toString maxLayoutDepth ++ " exceeded"
  | missingFamilies families =>
      "no font could be found for families: " ++ ", ".intercalate families

end LayoutFault

structure LayoutError where
  fault : LayoutFault
  span : Span
  deriving DecidableEq

def LayoutError.diagnostic (error : LayoutError) (resolver : Resolver) : Diagnostic :=
  .error error.fault.code error.fault.message (resolver error.span)

inductive LayoutStop where
  | tooDeep (span : Span)
  | bareElement
  | noFace

def LayoutStop.message : LayoutStop → String
  | tooDeep _ => "maximum math nesting depth exceeded"
  | bareElement => "cannot lay out Content"
  | noFace => "list index out of range"

abbrev Layouting := Outcome LayoutError LayoutStop

end EquationMap
