import EquationMap.Proofs.Geometry.Exact
import EquationMap.Proofs.Spans.Drawing
import EquationMap.Subexpression.Fragment

namespace EquationMap

/-! Frames that hold what is in them. In exact arithmetic, whatever is put together of such
frames is one again: each construct places its parts within the size that it computes. -/

/-- Whether an item lies within the bounds of a frame, and whatever is in a group within the
bounds of the group. -/
inductive Item.Within : Size Rat → Item Rat → Prop
  | group {outer inner : Size Rat} {position : Point Rat} {baseline : Rat}
      {items : List (Item Rat)} (fits : inner.Fits position outer)
      (items_within : ∀ item ∈ items, Item.Within inner item) :
      Item.Within outer (.group position inner baseline items)
  | text {outer : Size Rat} {position : Point Rat} {run : TextRun Rat}
      (inside : (run.corners.boxAt position).Inside outer) :
      Item.Within outer (.text position run)
  | shape {outer : Size Rat} {position : Point Rat} {drawn : Shape Rat} {span : Span}
      (inside : (drawn.corners.boxAt position).Inside outer) :
      Item.Within outer (.shape position drawn span)
  | tag {outer : Size Rat} {position : Point Rat} {kind : TagKind} {span : Span} :
      Item.Within outer (.tag position kind span)

theorem Item.Within.moved {inner outer : Size Rat} {offset : Point Rat} {item : Item Rat}
    (within : item.Within inner) (fits : inner.Fits offset outer) :
    (item.moved offset).Within outer := by
  cases within with
  | group inner_fits items_within => exact .group (inner_fits.trans fits) items_within
  | text inside => exact .text (fits.inside_boxAt inside)
  | shape inside => exact .shape (fits.inside_boxAt inside)
  | tag => exact .tag

structure Frame.Bounded (frame : Frame Rat) : Prop where
  width : 0 ≤ frame.width
  height : 0 ≤ frame.height
  items : ∀ item ∈ frame.items, item.Within frame.size

namespace Frame

variable {frame inner : Frame Rat} {item : Item Rat} {position : Point Rat}

theorem bounded_soft {width ascent descent : Rat} (wide : 0 ≤ width)
    (high : 0 ≤ ascent + descent) : (soft width ascent descent).Bounded :=
  ⟨wide, high, by simp [soft]⟩

theorem bounded_empty : (empty : Frame Rat).Bounded :=
  bounded_soft (by norm_num) (by norm_num)

theorem Bounded.push (bounded : frame.Bounded) (within : item.Within frame.size) :
    (frame.push item).Bounded := by
  refine ⟨bounded.width, bounded.height, ?_⟩
  exact List.forall_mem_append.mpr ⟨bounded.items, List.forall_mem_singleton.mpr within⟩

theorem Bounded.pushGroup (bounded : frame.Bounded) (inside : inner.Bounded)
    (fits : inner.size.Fits position frame.size) : (frame.pushGroup position inner).Bounded :=
  bounded.push (.group fits inside.items)

theorem Bounded.pushFrame (bounded : frame.Bounded) (inside : inner.Bounded)
    (fits : inner.size.Fits position frame.size) :
    (frame.pushFrame position inner).Bounded := by
  refine ⟨bounded.width, bounded.height, List.forall_mem_append.mpr ⟨bounded.items, ?_⟩⟩
  exact List.forall_mem_map.mpr fun item member => (inside.items item member).moved fits

end Frame

namespace Part

theorem bounded_placeIn {ascent : Rat} {frame : Frame Rat} {part : Part Rat}
    (bounded : frame.Bounded) (inside : part.frame.Bounded)
    (fits : part.frame.size.Fits ⟨part.x, ascent + part.shift - part.frame.ascent⟩ frame.size) :
    (part.placeIn ascent frame).Bounded := by
  unfold placeIn
  dsimp only
  split
  · exact bounded.pushGroup inside fits
  · exact bounded.pushFrame inside fits

@[simp]
theorem size_placeIn (ascent : Rat) (frame : Frame Rat) (part : Part Rat) :
    (part.placeIn ascent frame).size = frame.size := by
  unfold placeIn
  dsimp only
  split <;> rfl

@[simp]
theorem ascent_placeIn (ascent : Rat) (frame : Frame Rat) (part : Part Rat) :
    (part.placeIn ascent frame).ascent = frame.ascent := by
  unfold placeIn
  dsimp only
  split <;> rfl

def ascent (parts : List (Part Rat)) : Rat :=
  Length.maximum 0.0 (parts.map fun part => part.frame.ascent - part.shift)

def descent (parts : List (Part Rat)) : Rat :=
  Length.maximum 0.0 (parts.map fun part => part.frame.descent + part.shift)

variable {parts : List (Part Rat)} {part : Part Rat} {width : Rat}

theorem size_foldl_placeIn (ascent : Rat) (frame : Frame Rat) (parts : List (Part Rat)) :
    (parts.foldl (placeIn ascent) frame).size = frame.size ∧
      (parts.foldl (placeIn ascent) frame).ascent = frame.ascent := by
  induction parts generalizing frame with
  | nil => exact ⟨rfl, rfl⟩
  | cons part rest induction =>
      rw [List.foldl_cons, (induction _).1, (induction _).2, size_placeIn, ascent_placeIn]
      exact ⟨rfl, rfl⟩

@[simp]
theorem size_compose (parts : List (Part Rat)) (width : Rat) :
    (compose parts width).size = ⟨width, ascent parts + descent parts⟩ :=
  (size_foldl_placeIn _ _ parts).1

theorem width_compose (parts : List (Part Rat)) (width : Rat) :
    (compose parts width).width = width :=
  congrArg Size.width (size_compose parts width)

@[simp]
theorem ascent_compose (parts : List (Part Rat)) (width : Rat) :
    (compose parts width).ascent = ascent parts :=
  (size_foldl_placeIn _ _ parts).2

@[simp]
theorem descent_compose (parts : List (Part Rat)) (width : Rat) :
    (compose parts width).descent = descent parts := by
  have baseline := ascent_compose parts width
  unfold Frame.ascent at baseline
  rw [Frame.descent, size_compose, baseline, add_sub_cancel_left]

theorem le_ascent_compose (width : Rat) (member : part ∈ parts) :
    part.frame.ascent - part.shift ≤ (compose parts width).ascent := by
  rw [ascent_compose]
  exact Length.le_maximum (List.mem_map_of_mem member)

theorem le_descent_compose (width : Rat) (member : part ∈ parts) :
    part.frame.descent + part.shift ≤ (compose parts width).descent := by
  rw [descent_compose]
  exact Length.le_maximum (List.mem_map_of_mem member)

/-- Whether a part is bounded and does not reach over the sides. -/
structure Beside (width : Rat) (part : Part Rat) : Prop where
  bounded : part.frame.Bounded
  left : 0 ≤ part.x
  right : part.x + part.frame.width ≤ width

theorem beside_optional {place : Frame Rat → Part Rat} {frame : Option (Frame Rat)}
    (beside : ∀ inner ∈ frame, (place inner).Beside width) :
    ∀ part ∈ (frame.map place).toList, part.Beside width := by
  cases frame with
  | none => simp
  | some inner => exact List.forall_mem_singleton.mpr (beside inner rfl)

theorem beside_width (bounded : ∀ part ∈ parts, part.frame.Bounded ∧ 0 ≤ part.x) :
    0 ≤ Part.width parts ∧ ∀ part ∈ parts, part.Beside (Part.width parts) := by
  constructor
  · apply Length.maximum_nonneg
    refine List.forall_mem_map.mpr fun part member => ?_
    exact add_nonneg (bounded part member).2 (bounded part member).1.width
  · intro part member
    refine ⟨(bounded part member).1, (bounded part member).2, ?_⟩
    exact Length.le_maximum (List.mem_map_of_mem member)

theorem extent_nonneg (beside : ∀ part ∈ parts, part.Beside width) :
    0 ≤ ascent parts + descent parts := by
  cases parts with
  | nil => simp [ascent, descent, Length.maximum]
  | cons part rest =>
      have height := (beside part List.mem_cons_self).bounded.height
      have member : part ∈ part :: rest := List.mem_cons_self
      have above := le_ascent_compose width member
      have below := le_descent_compose width member
      rw [ascent_compose] at above
      rw [descent_compose] at below
      simp only [Frame.height, Frame.ascent, Frame.descent] at height above below
      linarith

/-- The shared baseline lies below the highest part, so no part reaches over the top, and the
deepest part ends at the bottom. -/
theorem bounded_compose (wide : 0 ≤ width) (beside : ∀ part ∈ parts, part.Beside width) :
    (compose parts width).Bounded := by
  have fits : ∀ part ∈ parts, part.frame.size.Fits
      ⟨part.x, ascent parts + part.shift - part.frame.ascent⟩
      ⟨width, ascent parts + descent parts⟩ := by
    intro part member
    have above := le_ascent_compose width member
    have below := le_descent_compose width member
    rw [ascent_compose] at above
    rw [descent_compose] at below
    simp only [Frame.ascent, Frame.descent] at above below ⊢
    refine ⟨(beside part member).left, (beside part member).right, ?_, ?_⟩ <;>
      dsimp only <;> linarith
  have placed (frame : Frame Rat) (bounded : frame.Bounded)
      (size : frame.size = ⟨width, ascent parts + descent parts⟩)
      (some : List (Part Rat)) (among : some ⊆ parts) :
      (some.foldl (placeIn (ascent parts)) frame).Bounded := by
    induction some generalizing frame with
    | nil => exact bounded
    | cons part rest induction =>
        obtain ⟨here, later⟩ := List.cons_subset.mp among
        rw [List.foldl_cons]
        apply induction _ _ _ later
        · exact bounded_placeIn bounded (beside part here).bounded (size ▸ fits part here)
        · rw [size_placeIn, size]
  have start : (Frame.soft width (ascent parts) (descent parts)).Bounded :=
    Frame.bounded_soft wide (extent_nonneg beside)
  exact placed _ start rfl parts (List.Subset.refl parts)

end Part

namespace Shape

variable {position : Point Rat} {size outer : Size Rat} {fill stroke : Option Color}
  {width thickness strokeWidth : Rat}

theorem inside_rect (wide : 0 ≤ size.width) (high : 0 ≤ size.height)
    (fits : size.Fits position outer) :
    ((Shape.mk (.rect size) fill stroke strokeWidth).corners.boxAt position).Inside outer := by
  obtain ⟨left, right, top, bottom⟩ := fits
  rw [Corners.inside_boxAt_iff]
  constructor <;> constructor <;>
    simp only [Shape.corners, Point.origin, Point.x_add, Point.y_add, Length.zero_eq] <;> linarith

theorem inside_line (wide : 0 ≤ width) (thick : 0 ≤ thickness) (left : 0 ≤ position.x)
    (right : position.x + width ≤ outer.width) (top : 0 ≤ position.y - thickness / 2)
    (bottom : position.y + thickness / 2 ≤ outer.height) :
    ((Shape.mk (.line ⟨width, 0.0⟩) fill stroke thickness).corners.boxAt position).Inside
      outer := by
  rw [Corners.inside_boxAt_iff]
  constructor <;> constructor <;>
    simp only [Shape.corners, Point.x_add, Point.y_add, Length.min_eq, Length.max_eq,
      Length.zero_eq, min_eq_left wide, max_eq_right wide, min_self, max_self] <;> linarith

end Shape

/-- Whether the measures of a face fit together. -/
structure FontFace.Sound (face : FontFace Rat) : Prop where
  rule : 0 ≤ face.ruleThickness
  extent : face.descender ≤ face.ascender
  advance : ∀ c, 0 ≤ face.advance c

theorem Styles.fontSize_nonneg {styles : Styles Rat} (sized : 0 ≤ styles.textSize) :
    0 ≤ styles.fontSize := by
  refine mul_nonneg sized ?_
  cases styles.mathSize <;> norm_num [MathSize.scale]

theorem AtomClass.spacing_nonneg (left right : AtomClass) (script : Bool) :
    0 ≤ (spacing left right script : Rat) := by
  unfold spacing
  split_ifs <;> norm_num

namespace Compose

variable {styles : Styles Rat} {face : FontFace Rat} {span : Span} {body base : Frame Rat}
  {top bottom primes opening closing : Option (Frame Rat)}

theorem beside_rowFrom (sized : 0 ≤ styles.textSize) (previous : AtomClass)
    {entries : List (AtomClass × Frame Rat)} (bounded : ∀ entry ∈ entries, entry.2.Bounded)
    {x : Rat} (start : 0 ≤ x) :
    x ≤ (rowFrom styles x previous entries).2 ∧
      ∀ part ∈ (rowFrom styles x previous entries).1,
        part.Beside (rowFrom styles x previous entries).2 := by
  induction entries generalizing x previous with
  | nil => simp [rowFrom]
  | cons entry rest induction =>
      obtain ⟨cls, frame⟩ := entry
      obtain ⟨here, later⟩ := List.forall_mem_cons.mp bounded
      have space : 0 ≤ AtomClass.spacing previous cls styles.mathSize.isScript *
          (styles.fontSize / 18.0) :=
        mul_nonneg (AtomClass.spacing_nonneg _ _ _)
          (div_nonneg (Styles.fontSize_nonneg sized) (by norm_num))
      have wide := here.width
      obtain ⟨reached, beside⟩ := induction cls later
        (x := x + AtomClass.spacing previous cls styles.mathSize.isScript *
          (styles.fontSize / 18.0) + frame.width) (by linarith)
      simp only [rowFrom]
      refine ⟨by linarith, List.forall_mem_cons.mpr ⟨⟨here, ?_, reached⟩, beside⟩⟩
      dsimp only
      linarith

theorem bounded_row (sized : 0 ≤ styles.textSize) {pieces : List (Piece Rat)}
    (bounded : ∀ piece ∈ pieces, piece.frame.Bounded) : (row styles pieces).frame.Bounded := by
  have kept : ∀ piece ∈ pieces.filter fun piece => !isVoid piece, piece.frame.Bounded :=
    fun piece member => bounded piece (List.mem_of_mem_filter member)
  unfold row
  split
  · exact Frame.bounded_empty
  · rename_i piece only
    rw [only] at kept
    exact kept piece (List.mem_singleton_self piece)
  · rename_i first rest _ several
    rw [several] at kept
    dsimp only
    split
    · exact Frame.bounded_empty
    · rename_i cls frame others zipped
      have entries : ∀ entry ∈ (cls, frame) :: others, entry.2.Bounded := by
        rw [← zipped]
        intro entry member
        obtain ⟨piece, isPiece, same⟩ := List.mem_map.mp (List.of_mem_zip member).2
        rw [← same]
        exact kept piece isPiece
      obtain ⟨here, later⟩ := List.forall_mem_cons.mp entries
      have wide := here.width
      obtain ⟨reached, beside⟩ := beside_rowFrom sized cls later
        (x := 0.0 + frame.width) (by simpa using wide)
      apply Part.bounded_compose
      · exact le_trans (by simpa using wide) reached
      · exact List.forall_mem_cons.mpr ⟨⟨here, by norm_num, reached⟩, beside⟩

theorem bounded_fraction (sized : 0 ≤ styles.textSize) (sound : face.Sound)
    {num denom : Frame Rat} (above : num.Bounded) (below : denom.Bounded) :
    (fraction face styles num denom span).Bounded := by
  have size_nonneg := Styles.fontSize_nonneg sized
  have num_wide := above.width
  have num_high := above.height
  have denom_high := below.height
  unfold fraction
  extract_lets size thickness axis gap pad width numShift denomShift frame bar
  have thick : 0 ≤ thickness := mul_nonneg sound.rule size_nonneg
  have gap_nonneg : 0 ≤ gap := mul_nonneg (by split_ifs <;> norm_num) thick
  have pad_nonneg : 0 ≤ pad := mul_nonneg (by norm_num) size_nonneg
  have num_fits : num.width + 2.0 * pad ≤ width := by
    apply add_le_add_left
    exact Length.left_le_max _ _
  have denom_fits : denom.width + 2.0 * pad ≤ width := by
    apply add_le_add_left
    exact Length.right_le_max _ _
  have raised : numShift = -(axis + thickness / 2.0 + gap + num.descent) := rfl
  have lowered : denomShift = -axis + thickness / 2.0 + gap + denom.ascent := rfl
  clear_value axis thickness gap pad width numShift denomShift
  have bounded : frame.Bounded := by
    apply Part.bounded_compose
    · linarith
    · simp only [List.forall_mem_cons, List.not_mem_nil, IsEmpty.forall_iff, implies_true,
        and_true]
      refine ⟨⟨above, ?_, ?_⟩, ⟨below, ?_, ?_⟩⟩ <;> dsimp only <;> linarith
  have higher : num.ascent - numShift ≤ frame.ascent :=
    Part.le_ascent_compose width List.mem_cons_self
  have lower : denom.descent + denomShift ≤ frame.descent :=
    Part.le_descent_compose width (List.mem_cons_of_mem _ List.mem_cons_self)
  have frame_width : frame.size.width = width := Part.width_compose _ _
  clear_value frame
  simp only [Frame.ascent, Frame.descent, Frame.height] at *
  refine bounded.push (.shape (Shape.inside_line ?_ thick ?_ ?_ ?_ ?_)) <;> linarith

theorem bounded_limits (base_bounded : base.Bounded) (top_bounded : ∀ inner ∈ top, inner.Bounded)
    (bottom_bounded : ∀ inner ∈ bottom, inner.Bounded)
    (primes_bounded : ∀ inner ∈ primes, inner.Bounded) :
    (limits styles base top bottom primes).Bounded := by
  unfold limits
  extract_lets gap widthOf width centered above below marks
  have base_fits : base.width ≤ width :=
    (Length.left_le_max _ _).trans (Length.left_le_max _ _)
  have top_fits : ∀ inner ∈ top, inner.width ≤ width := by
    rintro inner rfl
    exact (Length.right_le_max _ _).trans (Length.left_le_max _ _)
  have bottom_fits : ∀ inner ∈ bottom, inner.width ≤ width := by
    rintro inner rfl
    exact Length.right_le_max _ _
  have wide : 0 ≤ width := base_bounded.width.trans base_fits
  have total : width ≤ primes.elim width fun frame => width + frame.width := by
    cases primes with
    | none => exact le_rfl
    | some marks => exact le_add_of_nonneg_right (primes_bounded marks rfl).width
  have inset : ∀ frame, centered frame = (width - frame.width) / 2.0 := fun _ => rfl
  clear_value width centered
  have centered_beside {frame : Frame Rat} (shift : Rat) (grouped : Bool)
      (bounded : frame.Bounded) (fits : frame.width ≤ width) :
      (Part.mk (centered frame) shift frame grouped).Beside
        (primes.elim width fun frame => width + frame.width) := by
    refine ⟨bounded, ?_, ?_⟩ <;> dsimp only <;> rw [inset] <;> linarith
  apply Part.bounded_compose (wide.trans total)
  simp only [List.cons_append, List.forall_mem_cons, List.forall_mem_append]
  refine ⟨?_, ⟨?_, ?_⟩, ?_⟩
  · exact centered_beside _ _ base_bounded base_fits
  · exact Part.beside_optional fun inner member =>
      centered_beside _ _ (top_bounded inner member) (top_fits inner member)
  · exact Part.beside_optional fun inner member =>
      centered_beside _ _ (bottom_bounded inner member) (bottom_fits inner member)
  · apply Part.beside_optional
    rintro inner rfl
    exact ⟨primes_bounded inner rfl, wide, le_rfl⟩

theorem bounded_scripts (sized : 0 ≤ styles.textSize) (rule : Rat) (base_bounded : base.Bounded)
    (top_bounded : ∀ inner ∈ top, inner.Bounded)
    (bottom_bounded : ∀ inner ∈ bottom, inner.Bounded)
    (primes_bounded : ∀ inner ∈ primes, inner.Bounded) :
    (scripts rule styles base top bottom primes).Bounded := by
  have size_nonneg := Styles.fontSize_nonneg sized
  have base_wide := base_bounded.width
  unfold scripts
  extract_lets size x raised lowered leastGap lowered' scriptWidth marks above below
  have space : 0 ≤ 0.05 * size := mul_nonneg (by norm_num) size_nonneg
  -- The primes stand behind the base, and the scripts behind the primes.
  have past_base : base.width ≤ x := by
    cases primes with
    | none => exact le_rfl
    | some marks => exact le_add_of_nonneg_right (primes_bounded marks rfl).width
  have past_marks : ∀ inner ∈ primes, base.width + inner.width ≤ x := by
    rintro inner rfl
    exact le_rfl
  -- The scripts are as wide as the wider of the two.
  have widths : 0 ≤ scriptWidth ∧ (∀ inner ∈ top, inner.width ≤ scriptWidth) ∧
      ∀ inner ∈ bottom, inner.width ≤ scriptWidth := by
    cases top with
    | none =>
        cases bottom with
        | none => simp [scriptWidth]
        | some bottom =>
            have none_fits := Length.left_le_max 0.0 bottom.width
            have bottom_fits := Length.right_le_max 0.0 bottom.width
            simp only [Option.mem_some_iff, forall_eq', scriptWidth]
            refine ⟨?_, by simp, ?_⟩ <;> linarith
    | some top =>
        have top_wide := (top_bounded top rfl).width
        cases bottom with
        | none =>
            simp only [Option.mem_some_iff, forall_eq', scriptWidth]
            refine ⟨?_, ?_, by simp⟩ <;> linarith
        | some bottom =>
            have top_fits := Length.left_le_max top.width bottom.width
            have bottom_fits := Length.right_le_max top.width bottom.width
            simp only [Option.mem_some_iff, forall_eq', scriptWidth]
            refine ⟨?_, ?_, ?_⟩ <;> linarith
  obtain ⟨wide, top_fits, bottom_fits⟩ := widths
  clear_value x scriptWidth
  apply Part.bounded_compose (by linarith)
  simp only [List.cons_append, List.forall_mem_cons, List.forall_mem_append]
  refine ⟨⟨base_bounded, ?_, ?_⟩, ⟨?_, ?_⟩, ?_⟩
  · norm_num
  · dsimp only
    linarith
  · refine Part.beside_optional fun inner member => ⟨primes_bounded inner member, base_wide, ?_⟩
    have := past_marks inner member
    dsimp only [marks]
    linarith
  · refine Part.beside_optional fun inner member => ⟨top_bounded inner member, ?_, ?_⟩
    · exact base_wide.trans past_base
    · exact add_le_add_right (top_fits inner member) x
  · refine Part.beside_optional fun inner member => ⟨bottom_bounded inner member, ?_, ?_⟩
    · exact base_wide.trans past_base
    · exact add_le_add_right (bottom_fits inner member) x

theorem fontSize_le_rootSize (face : FontFace Rat) (styles : Styles Rat) (radicand : Frame Rat) :
    styles.fontSize ≤ rootSize face styles radicand :=
  Length.left_le_max _ _

/-- The sign ends at the top of the line, so the frame reaches at least as high. -/
theorem bounded_root (sized : 0 ≤ styles.textSize) (sound : face.Sound)
    {sign radicand : Frame Rat} {index : Option (Frame Rat)} (sign_bounded : sign.Bounded)
    (radicand_bounded : radicand.Bounded) (index_bounded : ∀ inner ∈ index, inner.Bounded) :
    (root face styles sign radicand index span).Bounded := by
  have size_nonneg := Styles.fontSize_nonneg sized
  have sign_wide := sign_bounded.width
  have radicand_wide := radicand_bounded.width
  have radicand_high := radicand_bounded.height
  unfold root
  extract_lets thickness lineTop signShift signX indexPart radicandX parts frame line
  have thick : 0 ≤ thickness := mul_nonneg sound.rule size_nonneg
  have top : lineTop = radicand.ascent + 1.5 * thickness + thickness := rfl
  have sign_placed : 0 ≤ signX := by
    cases index with
    | none => simp [signX]
    | some inner => exact le_trans (by norm_num) (Length.left_le_max _ _)
  have radicand_placed : 0 ≤ radicandX := add_nonneg sign_placed sign_wide
  have sign_part : Part.mk signX signShift sign false ∈ parts := by simp [parts]
  have radicand_part : Part.mk radicandX 0.0 radicand true ∈ parts := by simp [parts]
  have placed : ∀ part ∈ parts, part.frame.Bounded ∧ 0 ≤ part.x := by
    simp only [parts, List.forall_mem_append, List.forall_mem_cons]
    refine ⟨?_, ⟨sign_bounded, sign_placed⟩, ⟨radicand_bounded, radicand_placed⟩, by simp⟩
    cases index with
    | none => simp
    | some inner => simp [indexPart, index_bounded inner rfl]
  obtain ⟨wide, beside⟩ := Part.beside_width placed
  have bounded : frame.Bounded := Part.bounded_compose wide beside
  have higher : sign.ascent - signShift ≤ frame.ascent := Part.le_ascent_compose _ sign_part
  have lower : radicand.descent + 0.0 ≤ frame.descent := Part.le_descent_compose _ radicand_part
  have right : radicandX + radicand.width ≤ frame.size.width := by
    rw [show frame.size.width = Part.width parts from Part.width_compose _ _]
    exact (beside _ radicand_part).right
  have sign_top : sign.ascent - signShift = lineTop := sub_sub_cancel _ _
  clear_value frame lineTop thickness radicandX
  rw [sign_top] at higher
  simp only [Frame.ascent, Frame.descent, Frame.height] at *
  refine bounded.push (.shape (Shape.inside_rect radicand_wide thick ⟨?_, right, ?_, ?_⟩)) <;>
    dsimp only <;> linarith

theorem delimiterSize_nonneg (sized : 0 ≤ styles.textSize) (face : FontFace Rat)
    (body : Frame Rat) : 0 ≤ delimiterSize face styles body := by
  have size_nonneg := Styles.fontSize_nonneg sized
  unfold delimiterSize
  extract_lets size axis extent
  split
  · exact size_nonneg
  · rename_i larger
    rw [Bool.or_eq_true, not_or, Length.less_iff, not_lt] at larger
    exact le_trans (mul_nonneg size_nonneg (by norm_num)) larger.1

theorem bounded_surround (face : FontFace Rat) (styles : Styles Rat) (size : Rat)
    (body_bounded : body.Bounded) (opening_bounded : ∀ inner ∈ opening, inner.Bounded)
    (closing_bounded : ∀ inner ∈ closing, inner.Bounded) :
    (surround face styles size body opening closing).Bounded := by
  have body_wide := body_bounded.width
  unfold surround
  extract_lets shift start stop before after
  have opening_fits : ∀ inner ∈ opening, 0.0 + inner.width = start := by
    rintro inner rfl
    rfl
  have started : 0 ≤ start := by
    cases opening with
    | none => simp [start]
    | some inner => exact add_nonneg (by norm_num) (opening_bounded inner rfl).width
  have closing_fits : ∀ inner ∈ closing,
      stop + inner.width = closing.elim stop fun frame => stop + frame.width := by
    rintro inner rfl
    rfl
  have total : start + body.width ≤ closing.elim stop fun frame => stop + frame.width := by
    cases closing with
    | none => exact le_rfl
    | some inner => exact le_add_of_nonneg_right (closing_bounded inner rfl).width
  apply Part.bounded_compose (by linarith)
  simp only [List.forall_mem_append, List.forall_mem_cons]
  refine ⟨?_, ⟨body_bounded, started, total⟩, ?_⟩
  · refine Part.beside_optional fun inner member =>
      ⟨opening_bounded inner member, by norm_num [before], ?_⟩
    dsimp only [before]
    rw [opening_fits inner member]
    linarith
  · refine Part.beside_optional fun inner member =>
      ⟨closing_bounded inner member, ?_, (closing_fits inner member).le⟩
    exact add_nonneg started body_wide

theorem bounded_line (sized : 0 ≤ styles.textSize) (sound : face.Sound) (above : Bool)
    (bounded : body.Bounded) : (line face styles above body span).Bounded := by
  have wide := bounded.width
  have high := bounded.height
  unfold line
  extract_lets thickness gap rule
  have thick : 0 ≤ thickness := mul_nonneg sound.rule (Styles.fontSize_nonneg sized)
  have gap_nonneg : 0 ≤ gap := mul_nonneg (by norm_num) thick
  clear_value thickness gap
  simp only [Frame.width, Frame.height, Frame.ascent, Frame.descent] at *
  cases above with
  | true =>
      apply Frame.Bounded.pushFrame _ bounded
      · constructor <;> simp [Frame.push, Frame.soft] <;> linarith
      · apply Frame.Bounded.push
        · exact Frame.bounded_soft wide (by linarith)
        · refine .shape (Shape.inside_rect wide thick ?_)
          constructor <;> simp [Frame.soft, Frame.width, Point.origin]
          linarith
  | false =>
      apply Frame.Bounded.push
      · apply Frame.Bounded.pushFrame _ bounded
        · constructor <;> simp [Frame.soft, Point.origin]
          linarith
        · exact Frame.bounded_soft wide (by linarith)
      · refine .shape (Shape.inside_rect wide thick ?_)
        constructor <;> simp [Frame.pushFrame, Frame.soft, Frame.width] <;> linarith

end Compose

end EquationMap
