import EquationMap.Layout.Equation
import EquationMap.Proofs.Spans.Elements
import Mathlib.Algebra.BigOperators.Group.Multiset.Basic

namespace EquationMap

/-- A character of the text of an element, at the byte offset where it stands in that text, or
the line of a fraction, a root or a stroke. -/
inductive Drawn where
  | mark (char : String) (span : Span) (offset : Nat)
  | stroke (span : Span)
  deriving DecidableEq

def Drawn.marksFrom (span : Span) (offset : Nat) (text : List Char) : List Drawn :=
  text.mapIdx fun index c =>
    .mark c.toString span (offset + Text.byteLength (text.take index))

theorem Drawn.marksFrom_cons (span : Span) (offset : Nat) (c : Char) (rest : List Char) :
    marksFrom span offset (c :: rest) =
      .mark c.toString span offset :: marksFrom span (offset + c.utf8Size) rest := by
  simp [marksFrom, List.mapIdx_cons, Nat.add_assoc]

/-- Whether every character of a text is in one of the faces. -/
def FontFace.coverText {α : Type} [Length α] (faces : List (FontFace α)) (text : String) : Bool :=
  text.toList.all fun c => faces.any fun face => face.covers c

/-- What setting a text draws: nothing, if a character is missing. -/
def FontFace.set {α : Type} [Length α] (faces : List (FontFace α)) (text : String)
    (span : Span) : Multiset Drawn :=
  if coverText faces text then ↑(Drawn.marksFrom span 0 text.toList) else 0

namespace FontFace

variable {α : Type} [Length α] (faces : List (FontFace α))

@[simp]
theorem coverText_empty : coverText faces "" = true :=
  rfl

@[simp]
theorem set_empty (span : Span) : set faces "" span = 0 :=
  rfl

end FontFace

namespace Content

/-- The texts that an element sets itself, apart from those of the elements inside. -/
def texts : Content → List String
  | text written _ _ _ | op written _ _ => [written]
  | primes count _ => [String.ofList (List.replicate count '′')]
  | root _ _ _ => ["√"]
  | vec _ delims _ | mat _ delims _ => [delims.1, delims.2]
  | cases _ delim _ => [delim]
  | binom _ _ _ => ["(", ")"]
  | bare _ | sequence _ _ | frac _ _ _ | attach _ _ _ _ _ | lr _ _ _ _ | alignPoint _
  | linebreak _ | overline _ _ | underline _ _ | upright _ _ | equation _ _ _ => []

def isRuled : Content → Bool
  | frac _ _ _ | root _ _ _ | overline _ _ | underline _ _ => true
  | bare _ | sequence _ _ | text _ _ _ _ | op _ _ _ | primes _ _ | attach _ _ _ _ _
  | lr _ _ _ _ | alignPoint _ | linebreak _ | vec _ _ _ | mat _ _ _ | cases _ _ _
  | binom _ _ _ | upright _ _ | equation _ _ _ => false

def rule (content : Content) : Multiset Drawn :=
  if content.isRuled then {.stroke content.span} else 0

/-- What an element asks to be drawn at its own span. -/
def asked (content : Content) : Multiset Drawn :=
  (content.texts.map fun text => ↑(Drawn.marksFrom content.span 0 text.toList)).sum +
    content.rule

def Covered {α : Type} [Length α] (faces : List (FontFace α)) (content : Content) : Prop :=
  ∀ element ∈ content.elements, ∀ text ∈ element.texts, FontFace.coverText faces text = true

/-- Whether no element of content is of no particular kind. -/
def Plain (content : Content) : Prop :=
  ∀ element ∈ content.elements, ∀ span, element ≠ .bare span

def isBreak : Content → Bool
  | alignPoint _ | linebreak _ => true
  | _ => false

def isText : Content → Bool
  | text _ _ _ _ => true
  | _ => false

/-- The contents of a row: sequences within it are part of it, and alignment points and line
breaks take no place in it. -/
def rowMembers (contents : List Content) : List Content :=
  (Layout.flatten contents).filter fun content => !content.isBreak

/-- What is laid out one level below an element. A delimiter that is a text is not: it is set
in the size of the body. -/
def underneath : Content → List Content
  | sequence children _ => rowMembers children
  | lr opening body closing _ =>
      body :: (opening.toList ++ closing.toList).filter fun delimiter => !delimiter.isText
  | content => content.inner

/-- What is laid out at which level, if the given contents are at the first. -/
inductive LaidOut (first : List Content) : Nat → Content → Prop
  | top {element : Content} (member : element ∈ first) : LaidOut first 1 element
  | under {depth : Nat} {outer element : Content} (laid : LaidOut first depth outer)
      (member : element ∈ outer.underneath) : LaidOut first (depth + 1) element

/-- Whether an element and everything below it lie within so many levels. -/
def Fits : Nat → Content → Prop
  | 0, _ => False
  | levels + 1, content => ∀ element ∈ content.underneath, element.Fits levels

theorem LaidOut.deeper {first : List Content} {outer element : Content} {depth : Nat}
    (member : outer ∈ first) (laid : LaidOut outer.underneath depth element) :
    LaidOut first (depth + 1) element := by
  induction laid with
  | top here => exact .under (.top member) here
  | under _ here induction => exact .under induction here

theorem forall_fits_iff {first : List Content} {levels : Nat} :
    (∀ element ∈ first, element.Fits levels) ↔
      ∀ depth element, LaidOut first depth element → depth ≤ levels := by
  constructor
  · intro fits depth element laid
    have fitting : depth ≤ levels ∧ element.Fits (levels + 1 - depth) := by
      induction laid with
      | top member =>
          have here := fits _ member
          cases levels with
          | zero => exact here.elim
          | succ levels => exact ⟨by omega, here⟩
      | @under depth outer element _ member induction =>
          obtain ⟨within, outer_fits⟩ := induction
          obtain ⟨rest, left⟩ := Nat.exists_eq_add_of_le within
          have here : element.Fits rest := by
            rw [show levels + 1 - depth = rest + 1 by omega] at outer_fits
            exact outer_fits element member
          cases rest with
          | zero => exact here.elim
          | succ rest =>
              rw [show levels + 1 - (depth + 1) = rest + 1 by omega]
              exact ⟨by omega, here⟩
    exact fitting.1
  · intro within
    induction levels generalizing first with
    | zero =>
        intro element member
        exact absurd (within 1 element (.top member)) (by omega)
    | succ levels induction =>
        intro outer isFirst element member
        refine induction (fun depth inner laid => ?_) element member
        exact Nat.le_of_succ_le_succ (within _ inner (laid.deeper isFirst))

end Content
end EquationMap
