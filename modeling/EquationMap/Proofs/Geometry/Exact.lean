import EquationMap.Geometry.Box
import Mathlib.Algebra.Order.BigOperators.Group.List
import Mathlib.Tactic.Linarith
import Mathlib.Tactic.NormNum

namespace EquationMap

namespace Length

variable {a b : Rat} {lengths : List Rat}

@[simp]
theorem zero_eq : (0.0 : Rat) = 0 := by
  norm_num

theorem less_iff : less a b = true ↔ a < b :=
  decide_eq_true_iff

theorem max_eq (a b : Rat) : Length.max a b = Max.max a b := by
  unfold Length.max
  split
  · rename_i below
    exact (max_eq_right (less_iff.mp below).le).symm
  · rename_i notBelow
    exact (max_eq_left (not_lt.mp fun below => notBelow (less_iff.mpr below))).symm

theorem min_eq (a b : Rat) : Length.min a b = Min.min a b := by
  unfold Length.min
  split
  · rename_i below
    exact (min_eq_right (less_iff.mp below).le).symm
  · rename_i notBelow
    exact (min_eq_left (not_lt.mp fun below => notBelow (less_iff.mpr below))).symm

theorem left_le_max (a b : Rat) : a ≤ Length.max a b := by
  rw [max_eq]
  exact le_max_left a b

theorem right_le_max (a b : Rat) : b ≤ Length.max a b := by
  rw [max_eq]
  exact le_max_right a b

theorem le_foldl_max (first : Rat) (rest : List Rat) :
    ∀ length ∈ first :: rest, length ≤ rest.foldl Length.max first := by
  induction rest generalizing first with
  | nil => simp
  | cons second rest induction =>
      obtain ⟨merged, later⟩ := List.forall_mem_cons.mp (induction (Length.max first second))
      rw [List.foldl_cons]
      refine List.forall_mem_cons.mpr ⟨(left_le_max first second).trans merged, ?_⟩
      exact List.forall_mem_cons.mpr ⟨(right_le_max first second).trans merged, later⟩

theorem le_maximum {default : Rat} (member : a ∈ lengths) : a ≤ maximum default lengths := by
  cases lengths with
  | nil => cases member
  | cons first rest => exact le_foldl_max first rest a member

theorem maximum_nonneg (nonneg : ∀ length ∈ lengths, 0 ≤ length) : 0 ≤ maximum 0.0 lengths := by
  cases lengths with
  | nil => simp [maximum]
  | cons first rest =>
      exact (nonneg first List.mem_cons_self).trans (le_maximum List.mem_cons_self)

theorem sum_eq (lengths : List Rat) : sum lengths = lengths.sum := by
  rw [List.sum_eq_foldl, sum, zero_eq]

theorem ofNat_eq (n : Nat) : (ofNat n : Rat) = n := by
  change Rat.ofScientific n false 0 = n
  simp [Rat.ofScientific_false_def]

end Length

namespace Point

@[simp]
theorem x_add (a b : Point Rat) : (a + b).x = a.x + b.x :=
  rfl

@[simp]
theorem y_add (a b : Point Rat) : (a + b).y = a.y + b.y :=
  rfl

theorem add_left_comm (a b c : Point Rat) : a + (b + c) = b + (a + c) :=
  congrArg₂ Point.mk (Rat.add_left_comm a.x b.x c.x) (Rat.add_left_comm a.y b.y c.y)

end Point

/-- Whether a box, its bounds in order, lies within the bounds of something of the given size. -/
structure Box.Inside (box : Box Rat) (size : Size Rat) : Prop where
  left : 0 ≤ box.x0
  across : box.x0 ≤ box.x1
  right : box.x1 ≤ size.width
  top : 0 ≤ box.y0
  down : box.y0 ≤ box.y1
  bottom : box.y1 ≤ size.height

structure Point.Inside (point : Point Rat) (size : Size Rat) : Prop where
  left : 0 ≤ point.x
  right : point.x ≤ size.width
  top : 0 ≤ point.y
  bottom : point.y ≤ size.height

/-- Whether something of the inner size, placed at a position, stays within the outer size. -/
structure Size.Fits (inner : Size Rat) (position : Point Rat) (outer : Size Rat) : Prop where
  left : 0 ≤ position.x
  right : position.x + inner.width ≤ outer.width
  top : 0 ≤ position.y
  bottom : position.y + inner.height ≤ outer.height

theorem Corners.inside_boxAt_iff {corners : Corners Rat} {offset : Point Rat} {size : Size Rat} :
    (corners.boxAt offset).Inside size ↔
      (corners.first + offset).Inside size ∧ (corners.last + offset).Inside size := by
  constructor
  · intro inside
    obtain ⟨left, -, right, top, -, bottom⟩ := inside
    simp only [boxAt, Length.min_eq, Length.max_eq, le_min_iff, max_le_iff] at left right top bottom
    exact ⟨⟨left.1, right.1, top.1, bottom.1⟩, ⟨left.2, right.2, top.2, bottom.2⟩⟩
  · rintro ⟨first, last⟩
    constructor <;> simp only [boxAt, Length.min_eq, Length.max_eq]
    · exact le_min first.left last.left
    · exact min_le_max
    · exact max_le first.right last.right
    · exact le_min first.top last.top
    · exact min_le_max
    · exact max_le first.bottom last.bottom

namespace Size.Fits

variable {inner middle outer : Size Rat} {position offset point : Point Rat}

theorem at_origin (size : Size Rat) : size.Fits .origin size := by
  constructor <;> simp [Point.origin]

theorem trans (fits : inner.Fits position middle) (fits' : middle.Fits offset outer) :
    inner.Fits (offset + position) outer := by
  obtain ⟨left, right, top, bottom⟩ := fits
  obtain ⟨left', right', top', bottom'⟩ := fits'
  constructor <;> simp only [Point.x_add, Point.y_add] <;> linarith

theorem inside_add (fits : inner.Fits offset outer) (inside : point.Inside inner) :
    (offset + point).Inside outer := by
  obtain ⟨left, right, top, bottom⟩ := fits
  obtain ⟨left', right', top', bottom'⟩ := inside
  constructor <;> simp only [Point.x_add, Point.y_add] <;> linarith

theorem inside_boxAt {corners : Corners Rat} (fits : inner.Fits offset outer)
    (inside : (corners.boxAt position).Inside inner) :
    (corners.boxAt (offset + position)).Inside outer := by
  obtain ⟨first, last⟩ := Corners.inside_boxAt_iff.mp inside
  rw [Corners.inside_boxAt_iff, Point.add_left_comm, Point.add_left_comm corners.last]
  exact ⟨fits.inside_add first, fits.inside_add last⟩

end Size.Fits

end EquationMap
