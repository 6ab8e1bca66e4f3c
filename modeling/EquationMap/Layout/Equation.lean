import EquationMap.Layout.Element

namespace EquationMap

/-- The space that an equation is laid out in; an unbounded side grows with the equation. -/
structure Region (α : Type) where
  width : Option α := none
  height : Option α := none
  expandWidth : Bool := false
  expandHeight : Bool := false

namespace Layout

mutual

def flatten : List Content → List Content
  | [] => []
  | child :: rest => flattenOne child ++ flatten rest

def flattenOne : Content → List Content
  | .sequence children _ => flatten children
  | content => [content]

end

/-- Divides contents into lines at line breaks, and lines into segments at alignment points.
The segment that is open is the first of the first line. -/
def divide : List Content → List (List (List Content))
  | [] => [[[]]]
  | .linebreak _ :: rest => [[]] :: divide rest
  | .alignPoint _ :: rest =>
      match divide rest with
      | line :: lines => ([] :: line) :: lines
      | [] => [[[]]]
  | content :: rest =>
      match divide rest with
      | (segment :: line) :: lines => ((content :: segment) :: line) :: lines
      | lines => [[content]] :: lines

variable {α : Type} [Length α] (faces : List (FontFace α))

def segments (styles : Styles α) : List (List Content) → Layouting (List (Frame α))
  | [] => return []
  | segment :: rest => do
      let pieces ← pieces faces maxLayoutDepth styles segment
      return (Compose.row styles pieces).frame :: (← segments styles rest)

def lines (styles : Styles α) : List (List (List Content)) →
    Layouting (List (List (Frame α)))
  | [] => return []
  | line :: rest => do
      let first ← segments faces styles line
      return first :: (← lines styles rest)

end Layout

namespace Compose

variable {α : Type} [Length α]

/-- Adds the segments of a line, from the column at `x` on. Segments end and start by turns
at the alignment points; in a single column they are centered. -/
def alignedFrom (single : Bool) (ascent : α) (flushRight : Bool) (x : α) (frame : Frame α) :
    List (Frame α × α) → Frame α
  | [] => frame
  | (segment, width) :: rest =>
      let start :=
        if single then (frame.width - segment.width) / 2.0
        else if flushRight then x + width - segment.width
        else x
      alignedFrom single ascent (!flushRight) (x + width)
        (frame.pushFrame ⟨start, ascent - segment.ascent⟩ segment) rest

def alignedLine (widths : List α) (width : α) (segments : List (Frame α)) : Frame α :=
  let ascent := Length.maximum 0.0 (segments.map Frame.ascent)
  let descent := Length.maximum 0.0 (segments.map Frame.descent)
  alignedFrom (widths.length = 1) ascent true 0.0 (Frame.soft width ascent descent)
    (segments.zip widths)

def stackFrom (leading y : α) (frame : Frame α) : List (Frame α) → Frame α
  | [] => frame
  | line :: rest =>
      stackFrom leading (y + (line.height + leading)) (frame.pushGroup ⟨0.0, y⟩ line) rest

def stack (styles : Styles α) (width : α) (span : Span) (lines : List (Frame α)) : Frame α :=
  let leading := if 1 < lines.length then 0.65 * styles.fontSize else 0.0
  let height := Length.sum (lines.map Frame.height) + leading * Length.ofNat (lines.length - 1)
  let baseline := (lines.head?.map Frame.ascent).getD 0.0
  let frame : Frame α := ⟨⟨width, height⟩, baseline, []⟩
  (stackFrom leading 0.0 (frame.push (.tag .origin .start span)) lines).push
    (.tag ⟨width, height⟩ .finish span)

def equation (styles : Styles α) (span : Span) (lines : List (List (Frame α))) : Frame α :=
  let widths := columnWidths lines
  let width := Length.sum widths
  stack styles width span (lines.map (alignedLine widths width))

def fill (region : Region α) (frame : Frame α) : Frame α :=
  match region.width with
  | some width =>
      if region.expandWidth && Length.less frame.width width then
        (⟨⟨width, frame.height⟩, frame.baseline, []⟩ : Frame α).pushFrame
          ⟨(width - frame.width) / 2.0, 0.0⟩ frame
      else frame
  | none => frame

end Compose

inductive LayoutFailure where
  | errors (errors : List LayoutError)
  | stopped (stop : LayoutStop)

namespace Layout

variable {α : Type} [Length α]

def equation (faces : List (FontFace α)) (styles : Styles α) (body : Content) (span : Span) :
    Layouting (Frame α) := do
  return Compose.equation styles span (← lines faces styles (divide (flatten [body])))

def block (body : Content) (span : Span) (styles : Styles α) (region : Region α) :
    Except LayoutFailure (Frame α) :=
  match FontFace.select FontFace.catalog styles.families styles.weight with
  | [] => .error (.errors [⟨.missingFamilies styles.families, .detached⟩])
  | faces =>
      let layout := equation faces styles body span
      match layout.result with
      | .ok frame =>
          if layout.reports.isEmpty then .ok (Compose.fill region frame)
          else .error (.errors layout.reports)
      | .error (.tooDeep span) => .error (.errors (layout.reports ++ [⟨.tooDeep, span⟩]))
      | .error stop => .error (.stopped stop)

end Layout

end EquationMap
