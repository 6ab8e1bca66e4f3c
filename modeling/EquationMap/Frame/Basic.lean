import EquationMap.Font
import EquationMap.Geometry.Box
import EquationMap.Source.Span
import EquationMap.Text.Hexadecimal

namespace EquationMap

/-! Frames: what layout produces. A frame has a size and a baseline, and items at positions
measured from its top left corner. A text run starts at its position on the baseline. -/

structure Color where
  red : Nat
  green : Nat
  blue : Nat
  deriving DecidableEq

def Color.white : Color := ⟨255, 255, 255⟩

def Color.toHex (color : Color) : String :=
  String.ofList ('#' :: Text.hexadecimal 2 color.red ++ Text.hexadecimal 2 color.green ++
    Text.hexadecimal 2 color.blue)

/-- A character set in type. Its source is the byte `offset` of the text at the span; widths
are in units of the text size. -/
structure Glyph (α : Type) where
  char : String
  advance : α
  shift : α
  span : Span
  offset : Nat

structure TextRun (α : Type) [Length α] where
  face : FontFace α
  size : α
  fill : Option Color
  text : String
  glyphs : List (Glyph α)
  italic : Bool := false

inductive Geometry (α : Type) where
  | line (delta : Point α)
  | rect (size : Size α)

structure Shape (α : Type) where
  geometry : Geometry α
  fill : Option Color
  stroke : Option Color
  strokeWidth : α

inductive TagKind where
  | start | finish
  deriving DecidableEq

inductive Item (α : Type) [Length α] where
  | group (position : Point α) (size : Size α) (baseline : α) (items : List (Item α))
  | text (position : Point α) (run : TextRun α)
  | shape (position : Point α) (shape : Shape α) (span : Span)
  | tag (position : Point α) (kind : TagKind) (span : Span)

structure Frame (α : Type) [Length α] where
  size : Size α
  baseline : α
  items : List (Item α)

variable {α : Type} [Length α]

namespace TextRun

def width (run : TextRun α) : α :=
  Length.sum (run.glyphs.map Glyph.advance) * run.size

/-- The corners of the run's box, seen from its start on the baseline. The first corner is
the lower one. -/
def corners (run : TextRun α) : Corners α :=
  ⟨⟨0.0, -run.face.descender * run.size⟩, ⟨run.width, -run.face.ascender * run.size⟩⟩

end TextRun

def Shape.corners (shape : Shape α) : Corners α :=
  match shape.geometry with
  | .rect size => ⟨Point.origin, ⟨size.width, size.height⟩⟩
  | .line delta =>
      let half := shape.strokeWidth / 2.0
      ⟨⟨Length.min 0.0 delta.x, Length.min 0.0 delta.y - half⟩,
        ⟨Length.max 0.0 delta.x, Length.max 0.0 delta.y + half⟩⟩

namespace Item

def position : Item α → Point α
  | group position _ _ _ | text position _ | shape position _ _ | tag position _ _ => position

def moved (offset : Point α) : Item α → Item α
  | group position size baseline items => group (offset + position) size baseline items
  | text position run => text (offset + position) run
  | shape position drawn span => shape (offset + position) drawn span
  | tag position kind span => tag (offset + position) kind span

end Item

namespace Frame

def soft (width ascent descent : α) : Frame α :=
  ⟨⟨width, ascent + descent⟩, ascent, []⟩

def empty : Frame α := soft 0.0 0.0 0.0

def width (frame : Frame α) : α := frame.size.width

def height (frame : Frame α) : α := frame.size.height

def ascent (frame : Frame α) : α := frame.baseline

def descent (frame : Frame α) : α := frame.size.height - frame.baseline

def isEmpty (frame : Frame α) : Bool := frame.items.isEmpty

def push (frame : Frame α) (item : Item α) : Frame α :=
  { frame with items := frame.items ++ [item] }

def pushFrame (frame : Frame α) (position : Point α) (inner : Frame α) : Frame α :=
  { frame with items := frame.items ++ inner.items.map (Item.moved position) }

def pushGroup (frame : Frame α) (position : Point α) (inner : Frame α) : Frame α :=
  frame.push (.group position inner.size inner.baseline inner.items)

end Frame

end EquationMap
