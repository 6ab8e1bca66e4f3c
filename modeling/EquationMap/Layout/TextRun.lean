import EquationMap.Layout.Compose
import EquationMap.Layout.Fault
import EquationMap.Text.Utf8

namespace EquationMap

/-! Setting a text in type. Every character is set in the first face that has a glyph for it,
and neighbours in one face make up a run. -/

namespace TextRun

variable {α : Type} [Length α]

/-- A glyph with its face and the place of that face in the list of faces. -/
structure Shaped (α : Type) [Length α] where
  index : Nat
  face : FontFace α
  char : Char
  glyph : Glyph α

/-- The glyphs of a text, whose first character is at the given offset, or the first
character that no face has. -/
def glyphsFrom (faces : List (FontFace α)) (span : Span) (offset : Nat) :
    List Char → Except Char (List (Shaped α))
  | [] => .ok []
  | c :: rest =>
      match faces.zipIdx.find? fun (face, _) => face.covers c with
      | none => .error c
      | some (face, index) => do
          let others ← glyphsFrom faces span (offset + c.utf8Size) rest
          let glyph : Glyph α := ⟨c.toString, face.advance c, 0.0, span, offset⟩
          return ⟨index, face, c, glyph⟩ :: others

def runsOf : List (Shaped α) → List (List (Shaped α))
  | [] => []
  | first :: rest =>
      match runsOf rest with
      | (next :: run) :: runs =>
          if first.index = next.index then (first :: next :: run) :: runs
          else [first] :: (next :: run) :: runs
      | runs => [first] :: runs

def ofShaped (size : α) (fill : Option Color) (italic : Bool) :
    List (Shaped α) → Option (TextRun α)
  | [] => none
  | first :: rest =>
      let run := first :: rest
      some
        { face := first.face, size, fill, italic
          text := String.ofList (run.map Shaped.char)
          glyphs := run.map Shaped.glyph }

def place (ascent x : α) (frame : Frame α) : List (TextRun α) → Frame α
  | [] => frame
  | run :: rest => place ascent (x + run.width) (frame.push (.text ⟨x, ascent⟩ run)) rest

def frameOf : List (TextRun α) → Frame α
  | [] => .empty
  | first :: rest =>
      let runs := first :: rest
      let ascent :=
        Length.maximum 0.0 (runs.map fun run => run.face.ascender * run.size)
      let descent :=
        Length.maximum 0.0 (runs.map fun run => -run.face.descender * run.size)
      place ascent 0.0 (Frame.soft (Length.sum (runs.map TextRun.width)) ascent descent) runs

/-- Sets a text. A text with a character that no face has is reported and takes no place. -/
def layout (faces : List (FontFace α)) (styles : Styles α) (text : String) (size : α)
    (span : Span) (italic : Bool) : Layouting (Frame α) :=
  match glyphsFrom faces span 0 text.toList with
  | .ok glyphs =>
      return frameOf ((runsOf glyphs).filterMap (ofShaped size styles.fill italic))
  | .error c => do
      Outcome.report ⟨.missingGlyph c (faces.map FontFace.family), span⟩
      return .empty

end TextRun

end EquationMap
