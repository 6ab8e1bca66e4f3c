import EquationMap.Decimal.WrittenForm
import EquationMap.Geometry.Box

namespace EquationMap

structure Box.Unordered where
  x0 : Float
  x1 : Float
  y0 : Float
  y1 : Float

def Box.Unordered.message (bounds : Box.Unordered) : String :=
  "unordered bounding box BoundingBox(x0=" ++ Decimal.toText bounds.x0 ++
    ", x1=" ++ Decimal.toText bounds.x1 ++ ", y0=" ++ Decimal.toText bounds.y0 ++
    ", y1=" ++ Decimal.toText bounds.y1 ++ ")"

def Box.ofBounds (x0 x1 y0 y1 : Float) : Except Box.Unordered (Box Float) :=
  match Box.ofBounds? x0 x1 y0 y1 with
  | some box => .ok box
  | none => .error ⟨x0, x1, y0, y1⟩

end EquationMap
