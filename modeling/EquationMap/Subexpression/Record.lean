import EquationMap.Subexpression.Entry
import EquationMap.Subexpression.Fragment

namespace EquationMap

/-- A part of the source, the region that shows it, and how many fragments lie there. -/
structure Subexpression (α : Type) where
  text : String
  x : α
  y : α
  width : α
  height : α
  range : ByteRange
  fragments : Nat

namespace Subexpression

variable {α : Type} [Length α]

def recordOf? (fragments : List (Fragment α)) (entry : Entry) : Option (Subexpression α) :=
  match (fragments.filter fun fragment => entry.range.contains fragment.range).map
      Fragment.box with
  | [] => none
  | first :: rest =>
      let box := rest.foldl Box.merge first
      some
        { text := entry.text, x := box.x0, y := box.y0, width := box.width
          height := box.height, range := entry.range, fragments := rest.length + 1 }

def correlate (entries : List Entry) (fragments : List (Fragment α)) :
    List (Subexpression α) :=
  entries.filterMap (recordOf? fragments)

/-- The shortest record at an offset or ending there, the first of those. -/
def innermost? (offset : Nat) : List (Subexpression α) → Option (Subexpression α)
  | [] => none
  | record :: rest =>
      match innermost? offset rest with
      | none => if record.range.touches offset then some record else none
      | some other =>
          if record.range.touches offset ∧ record.range.length ≤ other.range.length then
            some record
          else some other

end Subexpression

end EquationMap
