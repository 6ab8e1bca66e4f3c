import EquationMap.Content.Basic
import EquationMap.Layout.TextRun

namespace EquationMap

/-! Laying out elements. Elements nest at most so many levels deep; the children of a sequence
are laid out as children of what contains it. -/

namespace Layout

variable {α : Type} [Length α] (faces : List (FontFace α))

def primaryFace : Layouting (FontFace α) :=
  match faces with
  | [] => .stop .noFace
  | face :: _ => return face

/-- Sets a text as an atom. Large operators are displayed larger and centered on the axis. -/
def text (styles : Styles α) (written : String) (upright limits : Bool) (span : Span) :
    Layouting (Piece α) := do
  let cls := AtomClass.ofText written
  let large := cls = .op && styles.mathSize = .display
  let size := if large then styles.fontSize * 1.4 else styles.fontSize
  let italic := !upright && !styles.upright && AtomClass.isItalic written
  let frame ← TextRun.layout faces styles written size span italic
  if large then
    let face ← primaryFace faces
    let shift := face.axisHeight * size - face.axisHeight * styles.fontSize
    let parts : List (Part α) := [⟨0.0, shift, frame, false⟩]
    return { frame := Part.compose parts (Part.width parts), cls, limits }
  else return { frame, cls, limits }

def delimiterText (styles : Styles α) (size : α) (written : String) (span : Span) :
    Layouting (Option (Frame α)) := do
  if written.isEmpty then return none
  else return some (← TextRun.layout faces styles written size span false)

def delimitedGrid (styles : Styles α) (centered : Bool) (opening closing : String)
    (span : Span) (cells : List (List (Frame α))) : Layouting (Piece α) := do
  let face ← primaryFace faces
  let body := Compose.grid face styles centered cells
  let size := Compose.delimiterSize face styles body
  let opening ← delimiterText faces styles size opening span
  let closing ← delimiterText faces styles size closing span
  return { frame := Compose.surround face styles size body opening closing }

mutual

def element (levels : Nat) (styles : Styles α) (content : Content) : Layouting (Piece α) :=
  match levels with
  | 0 => .stop (.tooDeep content.span)
  | levels + 1 =>
      match content with
      | .bare _ => .stop .bareElement
      | .sequence children _ => do
          return Compose.row styles (← pieces levels styles children)
      | .text written upright limits span => text faces styles written upright limits span
      | .op written limits span => do
          let frame ← TextRun.layout faces styles written styles.fontSize span false
          return { frame, cls := .op, limits }
      | .primes count span => do
          let marks := String.ofList (List.replicate count '′')
          return { frame := ← TextRun.layout faces styles marks styles.fontSize span false }
      | .frac num denom span => do
          let inner := { styles with mathSize := styles.mathSize.ofFraction }
          let num ← element levels inner num
          let denom ← element levels inner denom
          let face ← primaryFace faces
          return { frame := Compose.fraction face styles num.frame denom.frame span }
      | .attach base top bottom marks _ => do
          let base ← element levels styles base
          let inner := { styles with mathSize := styles.mathSize.ofScript }
          let top ← optional levels inner top
          let bottom ← optional levels inner bottom
          let marks ← optional levels styles marks
          if base.limits && styles.mathSize = .display && (top.isSome || bottom.isSome) then
            return { frame := Compose.limits styles base.frame top bottom marks, cls := base.cls }
          else
            let rule ←
              if top.isSome && bottom.isSome then FontFace.ruleThickness <$> primaryFace faces
              else pure 0.0
            return { frame := Compose.scripts rule styles base.frame top bottom marks
                     cls := base.cls }
      | .root index radicand span => do
          let radicand := (← element levels styles radicand).frame
          let face ← primaryFace faces
          let size := Compose.rootSize face styles radicand
          let sign ← TextRun.layout faces styles "√" size span false
          let index ← optional levels { styles with mathSize := .scriptScript } index
          return { frame := Compose.root face styles sign radicand index span }
      | .lr opening body closing _ => do
          let body := (← element levels styles body).frame
          let face ← primaryFace faces
          let size := Compose.delimiterSize face styles body
          let opening ← delimiter levels styles size opening
          let closing ← delimiter levels styles size closing
          return { frame := Compose.surround face styles size body opening closing }
      | .alignPoint _ | .linebreak _ => return { frame := .empty }
      | .vec children delims span => do
          let cells ← cells levels styles children
          delimitedGrid faces styles true delims.1 delims.2 span (cells.map fun cell => [cell])
      | .mat rows delims span => do
          delimitedGrid faces styles true delims.1 delims.2 span
            (← cellRows levels styles rows)
      | .cases children delim span => do
          let cells ← cells levels styles children
          delimitedGrid faces styles false delim "" span (cells.map fun cell => [cell])
      | .binom upper lower span => do
          let upper ← element levels styles upper
          let lower ← element levels styles lower
          delimitedGrid faces styles true "(" ")" span [[upper.frame], [lower.frame]]
      | .overline body span => do
          let body ← element levels styles body
          return { frame := Compose.line (← primaryFace faces) styles true body.frame span }
      | .underline body span => do
          let body ← element levels styles body
          return { frame := Compose.line (← primaryFace faces) styles false body.frame span }
      | .upright body _ => element levels { styles with upright := true } body
      | .equation body _ _ => element levels styles body

/-- The pieces of a row. Sequences within it are part of the row; alignment points and line
breaks take no place in it. -/
def pieces (levels : Nat) (styles : Styles α) : List Content → Layouting (List (Piece α))
  | [] => return []
  | .sequence children _ :: rest => do
      let first ← pieces levels styles children
      return first ++ (← pieces levels styles rest)
  | .alignPoint _ :: rest | .linebreak _ :: rest => pieces levels styles rest
  | child :: rest => do
      let first ← element levels styles child
      return first :: (← pieces levels styles rest)

def cells (levels : Nat) (styles : Styles α) : List Content → Layouting (List (Frame α))
  | [] => return []
  | child :: rest => do
      let first ← element levels styles child
      return first.frame :: (← cells levels styles rest)

def cellRows (levels : Nat) (styles : Styles α) :
    List (List Content) → Layouting (List (List (Frame α)))
  | [] => return []
  | row :: rest => do
      let first ← cells levels styles row
      return first :: (← cellRows levels styles rest)

def optional (levels : Nat) (styles : Styles α) :
    Option Content → Layouting (Option (Frame α))
  | none => return none
  | some content => do return some (← element levels styles content).frame

def delimiter (levels : Nat) (styles : Styles α) (size : α) :
    Option Content → Layouting (Option (Frame α))
  | none => return none
  | some (.text written _ _ span) => do
      return some (← TextRun.layout faces styles written size span false)
  | some content => do return some (← element levels styles content).frame

end

end Layout

end EquationMap
