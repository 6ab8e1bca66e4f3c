import EquationMap.Frame.Basic
import EquationMap.Source.Resolver

namespace EquationMap

structure Fragment (α : Type) where
  range : ByteRange
  box : Box α

namespace Fragment

def join (a b : ByteRange) : ByteRange :=
  ⟨min a.start b.start, max a.stop b.stop, by
    have := a.ordered
    have := b.ordered
    omega⟩

/-- The range of a run: from the least start to the greatest end of its glyphs. -/
def runRange? (resolver : Resolver) {α : Type} (glyphs : List (Glyph α)) : Option ByteRange :=
  match glyphs.filterMap fun glyph => resolver glyph.span with
  | [] => none
  | first :: rest => some (rest.foldl join first)

variable {α : Type} [Length α] (resolver : Resolver)

/-- The fragments of items, moved by an offset: one for each run and shape whose source is
known. -/
def ofItems (offset : Point α) : List (Item α) → List (Fragment α)
  | [] => []
  | .group position _ _ items :: rest => ofItems (offset + position) items ++ ofItems offset rest
  | .text position run :: rest =>
      match runRange? resolver run.glyphs with
      | some range => ⟨range, run.corners.boxAt (offset + position)⟩ :: ofItems offset rest
      | none => ofItems offset rest
  | .shape position shape span :: rest =>
      match resolver span with
      | some range => ⟨range, shape.corners.boxAt (offset + position)⟩ :: ofItems offset rest
      | none => ofItems offset rest
  | .tag _ _ _ :: rest => ofItems offset rest
termination_by items => sizeOf items
decreasing_by
  all_goals
    simp only [List.cons.sizeOf_spec, Item.group.sizeOf_spec]
    omega

end Fragment

def Frame.fragments {α : Type} [Length α] (frame : Frame α) (resolver : Resolver)
    (offset : Point α) : List (Fragment α) :=
  Fragment.ofItems resolver offset frame.items

end EquationMap
