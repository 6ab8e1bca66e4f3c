import EquationMap.Geometry.Unordered
import EquationMap.Proofs.Geometry.Comparison

namespace EquationMap

namespace Box

/-- What the check of the bounds asks for; bounds that are NaN pass it. -/
def Ordered (box : Box Float) : Prop :=
  ¬ box.x1 < box.x0 ∧ ¬ box.y1 < box.y0

theorem ofBounds_eq_ok {x0 x1 y0 y1 : Float} (ordered : (Box.mk x0 x1 y0 y1).Ordered) :
    ofBounds x0 x1 y0 y1 = .ok ⟨x0, x1, y0, y1⟩ := by
  obtain ⟨across, down⟩ := ordered
  have across : Length.less x1 x0 = false := decide_eq_false across
  have down : Length.less y1 y0 = false := decide_eq_false down
  simp [ofBounds, ofBounds?, across, down]

/-- The merge of two boxes, with the check that every new box goes through. -/
def mergeChecked (a b : Box Float) : Except Unordered (Box Float) :=
  ofBounds (Length.min a.x0 b.x0) (Length.max a.x1 b.x1) (Length.min a.y0 b.y0)
    (Length.max a.y1 b.y1)

theorem not_max_lt_min {a b c d : Float} (first : ¬ c < a) (second : ¬ d < b) :
    ¬ Length.max c d < Length.min a b := by
  intro crossed
  rcases Length.min_eq_or a b with ⟨least, -⟩ | ⟨least, below⟩ <;>
    rcases Length.max_eq_or c d with ⟨greatest, -⟩ | ⟨greatest, above⟩ <;>
    rw [least, greatest] at crossed
  · exact first crossed
  · exact first (Length.lt_of_lt_of_lt above crossed)
  · exact first (Length.lt_of_lt_of_lt crossed below)
  · exact second crossed

theorem ordered_merge {a b : Box Float} (first : a.Ordered) (second : b.Ordered) :
    (merge a b).Ordered :=
  ⟨not_max_lt_min first.1 second.1, not_max_lt_min first.2 second.2⟩

theorem foldlM_mergeChecked (rest : List (Box Float)) :
    ∀ first : Box Float, (∀ box ∈ first :: rest, box.Ordered) →
      rest.foldlM mergeChecked first = .ok (rest.foldl merge first) := by
  induction rest with
  | nil => intro first _; rfl
  | cons second rest induction =>
      intro first ordered
      obtain ⟨atFirst, later⟩ := List.forall_mem_cons.mp ordered
      obtain ⟨atSecond, later⟩ := List.forall_mem_cons.mp later
      have merged := ordered_merge atFirst atSecond
      have checked : mergeChecked first second = .ok (merge first second) :=
        ofBounds_eq_ok merged
      rw [List.foldlM_cons, checked, List.foldl_cons]
      exact induction _ (List.forall_mem_cons.mpr ⟨merged, later⟩)

structure Numeric (box : Box Float) : Prop where
  x0 : box.x0.isNaN = false
  x1 : box.x1.isNaN = false
  y0 : box.y0.isNaN = false
  y1 : box.y1.isNaN = false

/-- A box whose every bound is that of one of the boxes and lies beyond none of theirs. -/
structure Extent (boxes : List (Box Float)) (box : Box Float) : Prop where
  left : IsLeast { x | x ∈ boxes.map Box.x0 } box.x0
  right : IsGreatest { x | x ∈ boxes.map Box.x1 } box.x1
  top : IsLeast { y | y ∈ boxes.map Box.y0 } box.y0
  bottom : IsGreatest { y | y ∈ boxes.map Box.y1 } box.y1

theorem foldl_merge (rest : List (Box Float)) :
    ∀ first : Box Float, rest.foldl merge first =
      ⟨(rest.map Box.x0).foldl Length.min first.x0, (rest.map Box.x1).foldl Length.max first.x1,
        (rest.map Box.y0).foldl Length.min first.y0,
        (rest.map Box.y1).foldl Length.max first.y1⟩ := by
  induction rest with
  | nil => intro first; rfl
  | cons second rest induction => intro first; exact induction (merge first second)

theorem extent_foldl_merge (first : Box Float) (rest : List (Box Float))
    (numeric : ∀ box ∈ first :: rest, box.Numeric) :
    Extent (first :: rest) (rest.foldl merge first) := by
  rw [foldl_merge]
  refine ⟨Length.isLeast_foldl_min _ _ ?_, Length.isGreatest_foldl_max _ _ ?_,
    Length.isLeast_foldl_min _ _ ?_, Length.isGreatest_foldl_max _ _ ?_⟩
  · exact List.forall_mem_map.mpr fun box member => (numeric box member).x0
  · exact List.forall_mem_map.mpr fun box member => (numeric box member).x1
  · exact List.forall_mem_map.mpr fun box member => (numeric box member).y0
  · exact List.forall_mem_map.mpr fun box member => (numeric box member).y1

structure Encloses (outer inner : Box Float) : Prop where
  left : outer.x0 ≤ inner.x0
  right : inner.x1 ≤ outer.x1
  top : outer.y0 ≤ inner.y0
  bottom : inner.y1 ≤ outer.y1

theorem Extent.encloses {boxes others : List (Box Float)} {box other : Box Float}
    (extent : Extent boxes box) (extent' : Extent others other) (among : others ⊆ boxes) :
    box.Encloses other where
  left := extent.left.2 (List.map_subset _ among extent'.left.1)
  right := extent.right.2 (List.map_subset _ among extent'.right.1)
  top := extent.top.2 (List.map_subset _ among extent'.top.1)
  bottom := extent.bottom.2 (List.map_subset _ among extent'.bottom.1)

end Box
end EquationMap
