import EquationMap.Layout.Atom
import EquationMap.Layout.Style

namespace EquationMap

/-- A laid-out element with what its neighbours and scripts need to know of it. -/
structure Piece (α : Type) [Length α] where
  frame : Frame α
  cls : AtomClass := .ord
  limits : Bool := false

/-- A frame to place at `x`, its baseline moved down by `shift`. -/
structure Part (α : Type) [Length α] where
  x : α
  shift : α
  frame : Frame α
  grouped : Bool

variable {α : Type} [Length α]

namespace Part

def width (parts : List (Part α)) : α :=
  Length.maximum 0.0 (parts.map fun part => part.x + part.frame.width)

def placeIn (ascent : α) (frame : Frame α) (part : Part α) : Frame α :=
  let position : Point α := ⟨part.x, ascent + part.shift - part.frame.ascent⟩
  if part.grouped then frame.pushGroup position part.frame
  else frame.pushFrame position part.frame

def compose (parts : List (Part α)) (width : α) : Frame α :=
  let ascent := Length.maximum 0.0 (parts.map fun part => part.frame.ascent - part.shift)
  let descent := Length.maximum 0.0 (parts.map fun part => part.frame.descent + part.shift)
  parts.foldl (placeIn ascent) (Frame.soft width ascent descent)

end Part

namespace Compose

def rowFrom (styles : Styles α) (x : α) (previous : AtomClass) :
    List (AtomClass × Frame α) → List (Part α) × α
  | [] => ([], x)
  | (cls, frame) :: rest =>
      let unit := styles.fontSize / 18.0
      let start := x + AtomClass.spacing previous cls styles.mathSize.isScript * unit
      let (parts, stop) := rowFrom styles (start + frame.width) cls rest
      (⟨start, 0.0, frame, false⟩ :: parts, stop)

def isVoid (piece : Piece α) : Bool :=
  piece.frame.isEmpty && piece.frame.width == 0.0

/-- Pieces in a row, spaced by their classes. A single piece stays what it is. -/
def row (styles : Styles α) (pieces : List (Piece α)) : Piece α :=
  match pieces.filter fun piece => !isVoid piece with
  | [] => { frame := .empty }
  | [piece] => piece
  | first :: rest =>
      let pieces := first :: rest
      let classes := AtomClass.fixBinaries none (pieces.map Piece.cls)
      match classes.zip (pieces.map Piece.frame) with
      | [] => { frame := .empty }
      | (cls, frame) :: others =>
          let (parts, width) := rowFrom styles (0.0 + frame.width) cls others
          { frame := Part.compose (⟨0.0, 0.0, frame, false⟩ :: parts) width }

def fraction (face : FontFace α) (styles : Styles α) (num denom : Frame α) (span : Span) :
    Frame α :=
  let size := styles.fontSize
  let thickness := face.ruleThickness * size
  let axis := face.axisHeight * size
  let gap := (if styles.mathSize = .display then 3.0 else 1.5) * thickness
  let pad := 0.1 * size
  let width := Length.max num.width denom.width + 2.0 * pad
  let numShift := -(axis + thickness / 2.0 + gap + num.descent)
  let denomShift := -axis + thickness / 2.0 + gap + denom.ascent
  let frame := Part.compose
    [⟨(width - num.width) / 2.0, numShift, num, true⟩,
     ⟨(width - denom.width) / 2.0, denomShift, denom, true⟩] width
  let bar : Shape α := ⟨.line ⟨width, 0.0⟩, none, styles.fill, thickness⟩
  frame.push (.shape ⟨0.0, frame.ascent - axis⟩ bar span)

def limits (styles : Styles α) (base : Frame α) (top bottom primes : Option (Frame α)) :
    Frame α :=
  let gap := 0.15 * styles.fontSize
  let widthOf (frame : Option (Frame α)) : α := frame.elim 0.0 Frame.width
  let width := Length.max (Length.max base.width (widthOf top)) (widthOf bottom)
  let centered (frame : Frame α) : α := (width - frame.width) / 2.0
  let above (frame : Frame α) : Part α :=
    ⟨centered frame, -(base.ascent + gap + frame.descent), frame, true⟩
  let below (frame : Frame α) : Part α :=
    ⟨centered frame, base.descent + gap + frame.ascent, frame, true⟩
  let marks (frame : Frame α) : Part α := ⟨width, 0.0, frame, false⟩
  Part.compose
    (⟨centered base, 0.0, base, false⟩ :: (top.map above).toList ++ (bottom.map below).toList ++
      (primes.map marks).toList)
    (primes.elim width fun frame => width + frame.width)

/-- Scripts to the right of a base. Two scripts keep a gap of four rules between them. -/
def scripts (rule : α) (styles : Styles α) (base : Frame α)
    (top bottom primes : Option (Frame α)) : Frame α :=
  let size := styles.fontSize
  let x := primes.elim base.width fun frame => base.width + frame.width
  let raised := Length.max (0.45 * size) (base.ascent - 0.25 * size)
  let lowered := Length.max (0.2 * size) (base.descent * 0.8)
  let lowered :=
    match top, bottom with
    | some top, some bottom =>
        let leastGap := 4.0 * rule * size
        let gap := (raised - top.descent) - (bottom.ascent - lowered)
        if Length.less gap leastGap then lowered + (leastGap - gap) else lowered
    | _, _ => lowered
  let scriptWidth :=
    match top, bottom with
    | none, none => 0.0
    | some top, none => top.width + 0.05 * size
    | none, some bottom => Length.max 0.0 bottom.width + 0.05 * size
    | some top, some bottom => Length.max top.width bottom.width + 0.05 * size
  let marks (frame : Frame α) : Part α := ⟨base.width, 0.0, frame, false⟩
  let above (frame : Frame α) : Part α := ⟨x, -raised, frame, true⟩
  let below (frame : Frame α) : Part α := ⟨x, lowered, frame, true⟩
  Part.compose
    (⟨0.0, 0.0, base, false⟩ :: (primes.map marks).toList ++ (top.map above).toList ++
      (bottom.map below).toList)
    (x + scriptWidth)

def rootLine (face : FontFace α) (styles : Styles α) (radicand : Frame α) : α :=
  let thickness := face.ruleThickness * styles.fontSize
  radicand.ascent + 1.5 * thickness + thickness

def rootSize (face : FontFace α) (styles : Styles α) (radicand : Frame α) : α :=
  let size := styles.fontSize
  let thickness := face.ruleThickness * size
  Length.max size ((radicand.height + 1.5 * thickness + thickness) * 1.05)

/-- A root sign before a radicand, with a line over it and an index at the sign. -/
def root (face : FontFace α) (styles : Styles α) (sign radicand : Frame α)
    (index : Option (Frame α)) (span : Span) : Frame α :=
  let thickness := face.ruleThickness * styles.fontSize
  let lineTop := rootLine face styles radicand
  let signShift := sign.ascent - lineTop
  let signX := index.elim 0.0 fun index => Length.max 0.0 (index.width - 0.5 * sign.width)
  let indexPart (index : Frame α) : Part α :=
    ⟨0.0, signShift + sign.descent - 0.55 * sign.height - index.descent, index, true⟩
  let radicandX := signX + sign.width
  let parts : List (Part α) := (index.map indexPart).toList ++
    [⟨signX, signShift, sign, false⟩, ⟨radicandX, 0.0, radicand, true⟩]
  let frame := Part.compose parts (Part.width parts)
  let line : Shape α := ⟨.rect ⟨radicand.width, thickness⟩, styles.fill, none, 0.0⟩
  frame.push (.shape ⟨radicandX, frame.ascent - lineTop⟩ line span)

def delimiterSize (face : FontFace α) (styles : Styles α) (body : Frame α) : α :=
  let size := styles.fontSize
  let axis := face.axisHeight * size
  let extent := 2.0 * Length.max (body.ascent - axis) (body.descent + axis)
  if Length.less extent (size * 1.01) || extent == size * 1.01 then size else extent

def surround (face : FontFace α) (styles : Styles α) (size : α) (body : Frame α)
    (opening closing : Option (Frame α)) : Frame α :=
  let shift := face.axisHeight * size - face.axisHeight * styles.fontSize
  let start := opening.elim 0.0 fun frame => 0.0 + frame.width
  let stop := start + body.width
  let before (frame : Frame α) : Part α := ⟨0.0, shift, frame, false⟩
  let after (frame : Frame α) : Part α := ⟨stop, shift, frame, false⟩
  Part.compose
    ((opening.map before).toList ++ ⟨start, 0.0, body, false⟩ :: (closing.map after).toList)
    (closing.elim stop fun frame => stop + frame.width)

def columnWidths (cells : List (List (Frame α))) : List α :=
  let columns := (cells.map List.length).foldl Nat.max 0
  (List.range columns).map fun column =>
    Length.maximum 0.0 (cells.filterMap fun row => row[column]?.map Frame.width)

def gridRow (centered : Bool) (gap baseline : α) (x : α) (frame : Frame α) :
    List (Frame α × α) → Frame α
  | [] => frame
  | (cell, width) :: rest =>
      let inset := if centered then (width - cell.width) / 2.0 else 0.0
      gridRow centered gap baseline (x + (width + gap))
        (frame.pushGroup ⟨x + inset, baseline - cell.ascent⟩ cell) rest

def gridRows (centered : Bool) (columnGap rowGap : α) (widths : List α) (y : α)
    (frame : Frame α) : List (List (Frame α) × α × α) → Frame α
  | [] => frame
  | (row, ascent, descent) :: rest =>
      gridRows centered columnGap rowGap widths (y + (ascent + descent + rowGap))
        (gridRow centered columnGap (y + ascent) 0.0 frame (row.zip widths)) rest

def grid (face : FontFace α) (styles : Styles α) (centered : Bool)
    (cells : List (List (Frame α))) : Frame α :=
  let size := styles.fontSize
  let axis := face.axisHeight * size
  let columnGap := 0.5 * size
  let rowGap := 0.3 * size
  let widths := columnWidths cells
  let metrics := cells.map fun row =>
    ((row.map Frame.ascent).foldl Length.max (face.ascender * size),
     (row.map Frame.descent).foldl Length.max (-face.descender * size))
  let width := Length.sum widths + columnGap * Length.ofNat (widths.length - 1)
  let height := Length.sum (metrics.map fun (ascent, descent) => ascent + descent) +
    rowGap * Length.ofNat (cells.length - 1)
  gridRows centered columnGap rowGap widths 0.0
    (Frame.soft width (height / 2.0 + axis) (height / 2.0 - axis)) (cells.zip metrics)

def line (face : FontFace α) (styles : Styles α) (above : Bool) (body : Frame α)
    (span : Span) : Frame α :=
  let thickness := face.ruleThickness * styles.fontSize
  let gap := 3.0 * thickness
  let rule : Shape α := ⟨.rect ⟨body.width, thickness⟩, styles.fill, none, 0.0⟩
  if above then
    ((Frame.soft body.width (body.ascent + gap + thickness) body.descent).push
      (.shape .origin rule span)).pushFrame ⟨0.0, gap + thickness⟩ body
  else
    ((Frame.soft body.width body.ascent (body.descent + gap + thickness)).pushFrame
      .origin body).push (.shape ⟨0.0, body.height + gap⟩ rule span)

end Compose

end EquationMap
