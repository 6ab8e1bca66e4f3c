import EquationMap.Geometry.Length

namespace EquationMap

structure Point (α : Type) where
  x : α
  y : α

structure Size (α : Type) where
  width : α
  height : α

structure Corners (α : Type) where
  first : Point α
  last : Point α

/-- A rectangle along the axes, with `x0 ≤ x1` and `y0 ≤ y1`. -/
structure Box (α : Type) where
  x0 : α
  x1 : α
  y0 : α
  y1 : α

variable {α : Type} [Length α]

namespace Point

instance : Add (Point α) where
  add a b := ⟨a.x + b.x, a.y + b.y⟩

instance : Sub (Point α) where
  sub a b := ⟨a.x - b.x, a.y - b.y⟩

def origin : Point α := ⟨0.0, 0.0⟩

end Point

namespace Box

def width (box : Box α) : α := box.x1 - box.x0

def height (box : Box α) : α := box.y1 - box.y0

/-- The box with the given bounds, unless they are in the wrong order. -/
def ofBounds? (x0 x1 y0 y1 : α) : Option (Box α) :=
  if Length.less x1 x0 || Length.less y1 y0 then none else some ⟨x0, x1, y0, y1⟩

def merge (a b : Box α) : Box α :=
  ⟨Length.min a.x0 b.x0, Length.max a.x1 b.x1, Length.min a.y0 b.y0, Length.max a.y1 b.y1⟩

end Box

def Corners.boxAt (corners : Corners α) (offset : Point α) : Box α :=
  let a := corners.first + offset
  let b := corners.last + offset
  ⟨Length.min a.x b.x, Length.max a.x b.x, Length.min a.y b.y, Length.max a.y b.y⟩

end EquationMap
