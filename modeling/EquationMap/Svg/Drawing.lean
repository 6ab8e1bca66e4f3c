import EquationMap.Decimal.WrittenForm
import EquationMap.Frame.Basic
import EquationMap.Svg.Element

namespace EquationMap

namespace Svg

inductive Undrawable where
  | missingFill
  deriving DecidableEq

def Undrawable.message : Undrawable → String
  | missingFill => "'NoneType' object has no attribute 'to_hex'"

/-- Drops the zeros that end a fraction, and a point that nothing follows. -/
def trimmed (text : String) : String :=
  let characters := (text.toList.reverse.dropWhile (· = '0'))
  String.ofList (characters.dropWhile (· = '.')).reverse

def number (value : Float) : String :=
  let text := trimmed (Decimal.toFixed 3 value)
  if text = "-0" ∨ text = "" then "0" else text

def translate (position : Point Float) : String × String :=
  ("transform", "translate(" ++ number position.x ++ " " ++ number position.y ++ ")")

def glyphPlaces (size x : Float) : List (Glyph Float) → List String
  | [] => []
  | glyph :: rest =>
      number ((x + glyph.shift) * size) :: glyphPlaces size (x + glyph.advance) rest

def colorText (color : Option Color) : String :=
  color.elim "none" Color.toHex

def text (position : Point Float) (run : TextRun Float) : Except Undrawable Markup :=
  match run.fill with
  | none => .error .missingFill
  | some fill =>
      let attributes :=
        [translate position,
         ("x", " ".intercalate (glyphPlaces run.size 0.0 run.glyphs)),
         ("y", "0"),
         ("font-family", run.face.family),
         ("font-size", number run.size),
         ("font-weight", toString run.face.weight),
         ("fill", fill.toHex)]
      let slant := if run.italic then [("font-style", "italic")] else []
      .ok (.element "text" (attributes ++ slant) run.text [])

def shape (position : Point Float) (shape : Shape Float) : Markup :=
  match shape.geometry with
  | .rect size =>
      .element "rect"
        [translate position, ("width", number size.width), ("height", number size.height),
         ("fill", colorText shape.fill)] "" []
  | .line delta =>
      .element "path"
        [translate position,
         ("d", "M 0 0 L " ++ number delta.x ++ " " ++ number delta.y),
         ("fill", "none"), ("stroke", colorText shape.stroke),
         ("stroke-width", number shape.strokeWidth)] "" []

def items : List (Item Float) → Except Undrawable (List Markup)
  | [] => .ok []
  | .group position _ _ inner :: rest => do
      let children ← items inner
      return .element "g" [translate position] "" children :: (← items rest)
  | .text position run :: rest => do
      let element ← text position run
      return element :: (← items rest)
  | .shape position drawn _ :: rest => do return shape position drawn :: (← items rest)
  | .tag _ _ _ :: rest => items rest

def drawing (frame : Frame Float) : Except Undrawable Markup := do
  let width := number frame.width
  let height := number frame.height
  return .element "svg"
    [("xmlns", "http://www.w3.org/2000/svg"), ("class", "typst-doc"), ("width", width),
     ("height", height), ("viewBox", "0 0 " ++ width ++ " " ++ height)] ""
    (← items frame.items)

end Svg

def Frame.toSvg (frame : Frame Float) : Except Svg.Undrawable String :=
  Markup.toText <$> Svg.drawing frame

end EquationMap
