import EquationMap.Proofs.Layout.Contained
import EquationMap.Proofs.Layout.Equation
import Mathlib.Data.List.Forall2
import Mathlib.Data.Nat.Bits

namespace EquationMap

/-! The lines of an equation stand below each other in the order in which they are written. From
left to right, the segments of a line by turns end and start at a place that is the same for all
lines. -/

namespace Content

def isLinebreak : Content → Bool
  | linebreak _ => true
  | _ => false

def isAlignPoint : Content → Bool
  | alignPoint _ => true
  | _ => false

end Content

/-- A segment of a line, with the place where it starts. -/
structure PlacedSegment (α : Type) [Length α] where
  frame : Frame α
  start : α

/-- A line of an equation, with the place of its top. -/
structure PlacedLine (α : Type) [Length α] where
  top : α
  size : Size α
  baseline : α
  segments : List (PlacedSegment α)

variable {α : Type} [Length α]

namespace PlacedSegment

def stop (segment : PlacedSegment α) : α :=
  segment.start + segment.frame.width

/-- The items of a segment, set on the baseline of its line. -/
def items (baseline : α) (segment : PlacedSegment α) : List (Item α) :=
  segment.frame.items.map (Item.moved ⟨segment.start, baseline - segment.frame.ascent⟩)

end PlacedSegment

namespace PlacedLine

def bottom (line : PlacedLine α) : α :=
  line.top + line.size.height

/-- The group that a line is in its equation. -/
def item (line : PlacedLine α) : Item α :=
  .group ⟨0.0, line.top⟩ line.size line.baseline
    (line.segments.flatMap (PlacedSegment.items line.baseline))

def frames (line : PlacedLine α) : List (Frame α) :=
  line.segments.map PlacedSegment.frame

end PlacedLine

namespace Layout

open Content Outcome

/-- The contents of a body at its top level, by lines and by segments of lines. -/
def written (body : Content) : List (List (List Content)) :=
  ((flatten [body]).splitOnP isLinebreak).map (List.splitOnP isAlignPoint)

def IsRow (faces : List (FontFace α)) (styles : Styles α) (contents : List Content)
    (frame : Frame α) : Prop :=
  ∃ set, (pieces faces maxLayoutDepth styles contents).result = .ok set ∧
    frame = (Compose.row styles set).frame

theorem length_splitOnP {β : Type} (separates : β → Bool) (list : List β) :
    (list.splitOnP separates).length = list.countP separates + 1 := by
  induction list with
  | nil => rfl
  | cons first rest induction =>
      rw [List.splitOnP_cons_eq_if_modifyHead, List.countP_cons]
      split <;> simp [induction]

theorem exists_mem_splitOnP {β : Type} {separates : β → Bool} {entry : β} {list : List β}
    (member : entry ∈ list) (kept : separates entry = false) :
    ∃ part ∈ list.splitOnP separates, entry ∈ part := by
  induction list with
  | nil => cases member
  | cons first rest induction =>
      obtain ⟨part, parts, divided⟩ :=
        List.exists_cons_of_ne_nil (List.splitOnP_ne_nil separates rest)
      rw [List.splitOnP_cons_eq_if_modifyHead, divided]
      rw [divided] at induction
      cases member with
      | head =>
          rw [kept]
          exact ⟨entry :: part, List.mem_cons_self, List.mem_cons_self⟩
      | tail _ later =>
          obtain ⟨found, isPart, inside⟩ := induction later
          split
          · exact ⟨found, List.mem_cons_of_mem _ isPart, inside⟩
          · cases isPart with
            | head => exact ⟨first :: part, List.mem_cons_self, List.mem_cons_of_mem _ inside⟩
            | tail _ isPart => exact ⟨found, List.mem_cons_of_mem _ isPart, inside⟩

theorem divide_eq (contents : List Content) :
    divide contents =
      (contents.splitOnP isLinebreak).map (List.splitOnP isAlignPoint) := by
  induction contents with
  | nil => rfl
  | cons content rest induction =>
      obtain ⟨line, lines, broken⟩ :=
        List.exists_cons_of_ne_nil (List.splitOnP_ne_nil isLinebreak rest)
      obtain ⟨segment, segments, aligned⟩ :=
        List.exists_cons_of_ne_nil (List.splitOnP_ne_nil isAlignPoint line)
      rw [broken, List.map_cons, aligned] at induction
      cases content <;>
        simp [divide, induction, List.splitOnP_cons_eq_if_modifyHead, broken, aligned,
          isLinebreak, isAlignPoint]

theorem length_written (body : Content) :
    (written body).length = (flatten [body]).countP isLinebreak + 1 := by
  rw [written, List.length_map, length_splitOnP]

theorem exists_line_of_alignPoint {body content : Content} (member : content ∈ flatten [body])
    (aligns : content.isAlignPoint = true) : ∃ line ∈ written body, 1 < line.length := by
  have kept : content.isLinebreak = false := by
    cases content with
    | alignPoint => rfl
    | _ => cases aligns
  obtain ⟨part, isPart, inside⟩ := exists_mem_splitOnP member kept
  refine ⟨_, List.mem_map_of_mem isPart, ?_⟩
  have counted := List.countP_pos_iff.mpr ⟨content, inside, aligns⟩
  rw [length_splitOnP]
  omega

variable {faces : List (FontFace α)} {styles : Styles α}

theorem segments_rows (line : List (List Content)) :
    (segments faces styles line).Yields (List.Forall₂ (IsRow faces styles) line) := by
  induction line with
  | nil =>
      rw [segments]
      exact yields_pure .nil
  | cons contents rest induction =>
      have set : (pieces faces maxLayoutDepth styles contents).Yields fun set =>
          (pieces faces maxLayoutDepth styles contents).result = .ok set := fun _ => id
      rw [segments]
      refine set.bind fun set made => induction.bind fun others rows => yields_pure ?_
      exact .cons ⟨set, made, rfl⟩ rows

theorem lines_rows (divided : List (List (List Content))) :
    (lines faces styles divided).Yields
      (List.Forall₂ (List.Forall₂ (IsRow faces styles)) divided) := by
  induction divided with
  | nil =>
      rw [lines]
      exact yields_pure .nil
  | cons line rest induction =>
      rw [lines]
      refine (segments_rows line).bind fun first row => induction.bind fun others rows => ?_
      exact yields_pure (.cons row rows)

end Layout

namespace Compose

/-- The segments of a line with their columns' widths, placed from the column at `x` on. -/
def segmentsFrom (single flushRight : Bool) (total x : α) :
    List (Frame α × α) → List (PlacedSegment α)
  | [] => []
  | (segment, width) :: rest =>
      let start :=
        if single then (total - segment.width) / 2.0
        else if flushRight then x + width - segment.width
        else x
      ⟨segment, start⟩ :: segmentsFrom single (!flushRight) total (x + width) rest

def placedLine (widths : List α) (width top : α) (row : List (Frame α)) : PlacedLine α :=
  let line := alignedLine widths width row
  ⟨top, line.size, line.baseline,
    segmentsFrom (widths.length = 1) true width 0.0 (row.zip widths)⟩

def linesFrom (leading : α) (widths : List α) (width y : α) :
    List (List (Frame α)) → List (PlacedLine α)
  | [] => []
  | row :: rest =>
      let line := placedLine widths width y row
      line :: linesFrom leading widths width (y + (line.size.height + leading)) rest

def leading (styles : Styles α) (rows : List (List (Frame α))) : α :=
  if 1 < rows.length then 0.65 * styles.fontSize else 0.0

def placedLines (styles : Styles α) (rows : List (List (Frame α))) : List (PlacedLine α) :=
  let widths := columnWidths rows
  linesFrom (leading styles rows) widths (Length.sum widths) 0.0 rows

theorem alignedFrom_eq {single flushRight : Bool} {ascent x : α} {frame : Frame α}
    (segments : List (Frame α × α)) :
    alignedFrom single ascent flushRight x frame segments =
      { frame with
        items := frame.items ++ (segmentsFrom single flushRight frame.width x segments).flatMap
          (PlacedSegment.items ascent) } := by
  induction segments generalizing flushRight x frame with
  | nil => simp [alignedFrom, segmentsFrom]
  | cons segment rest induction =>
      rw [alignedFrom, induction, segmentsFrom, List.flatMap_cons, ← List.append_assoc]
      rfl

theorem item_placedLine (widths : List α) (width top : α) (row : List (Frame α)) :
    (placedLine widths width top row).item =
      .group ⟨0.0, top⟩ (alignedLine widths width row).size
        (alignedLine widths width row).baseline (alignedLine widths width row).items := by
  simp only [PlacedLine.item, placedLine, alignedLine, alignedFrom_eq]
  rfl

theorem stackFrom_eq {leading y width : α} {widths : List α} {frame : Frame α}
    (rows : List (List (Frame α))) :
    stackFrom leading y frame (rows.map (alignedLine widths width)) =
      { frame with
        items := frame.items ++
          (linesFrom leading widths width y rows).map PlacedLine.item } := by
  induction rows generalizing y frame with
  | nil => simp [stackFrom, linesFrom]
  | cons row rest induction =>
      rw [List.map_cons, stackFrom, induction, linesFrom, List.map_cons, item_placedLine]
      simp [Frame.pushGroup, Frame.push, placedLine, Frame.height]

theorem items_equation (styles : Styles α) (span : Span) (rows : List (List (Frame α))) :
    (equation styles span rows).items =
      .tag .origin .start span :: (placedLines styles rows).map PlacedLine.item ++
        [.tag ⟨(equation styles span rows).width, (equation styles span rows).height⟩
          .finish span] := by
  simp only [equation, stack, stackFrom_eq, List.length_map]
  rfl

theorem frames_segmentsFrom {single flushRight : Bool} {total x : α}
    (segments : List (Frame α × α)) :
    (segmentsFrom single flushRight total x segments).map PlacedSegment.frame =
      segments.map Prod.fst := by
  induction segments generalizing flushRight x with
  | nil => rfl
  | cons segment rest induction => rw [segmentsFrom, List.map_cons, induction, List.map_cons]

theorem frames_linesFrom {leading width y : α} {widths : List α} {rows : List (List (Frame α))}
    (wide : ∀ row ∈ rows, row.length ≤ widths.length) :
    (linesFrom leading widths width y rows).map PlacedLine.frames = rows := by
  induction rows generalizing y with
  | nil => rfl
  | cons row rest induction =>
      obtain ⟨here, later⟩ := List.forall_mem_cons.mp wide
      rw [linesFrom, List.map_cons, induction later, PlacedLine.frames, placedLine,
        frames_segmentsFrom, List.map_fst_zip here]

theorem frames_placedLines (styles : Styles α) (rows : List (List (Frame α))) :
    (placedLines styles rows).map PlacedLine.frames = rows :=
  frames_linesFrom fun _ => length_le_columnWidths

theorem exists_row_of_mem_linesFrom {leading width y : α} {widths : List α}
    {rows : List (List (Frame α))} {line : PlacedLine α}
    (member : line ∈ linesFrom leading widths width y rows) :
    ∃ row ∈ rows, ∃ top, line = placedLine widths width top row := by
  induction rows generalizing y with
  | nil => cases member
  | cons row rest induction =>
      rw [linesFrom] at member
      cases member with
      | head => exact ⟨row, List.mem_cons_self, y, rfl⟩
      | tail _ later =>
          obtain ⟨found, isRow, same⟩ := induction later
          exact ⟨found, List.mem_cons_of_mem _ isRow, same⟩

end Compose

namespace Compose

variable {styles : Styles Rat} {span : Span}

theorem leading_nonneg (sized : 0 ≤ styles.textSize) (rows : List (List (Frame Rat))) :
    0 ≤ leading styles rows := by
  unfold leading
  split
  · exact mul_nonneg (by norm_num) (Styles.fontSize_nonneg sized)
  · norm_num

theorem pairwise_linesFrom {leading width y : Rat} {widths : List Rat}
    (leading_nonneg : 0 ≤ leading) {rows : List (List (Frame Rat))}
    (high : ∀ row ∈ rows, 0 ≤ (alignedLine widths width row).height) :
    (∀ line ∈ linesFrom leading widths width y rows, y ≤ line.top ∧ line.top ≤ line.bottom) ∧
      (linesFrom leading widths width y rows).Pairwise
        fun upper lower => upper.bottom ≤ lower.top := by
  induction rows generalizing y with
  | nil => exact ⟨by simp [linesFrom], .nil⟩
  | cons row rest induction =>
      obtain ⟨here, later⟩ := List.forall_mem_cons.mp high
      obtain ⟨below, ordered⟩ := induction later
        (y := y + ((alignedLine widths width row).height + leading))
      have last : (placedLine widths width y row).bottom =
          y + (alignedLine widths width row).height := rfl
      rw [linesFrom]
      refine ⟨List.forall_mem_cons.mpr ⟨⟨le_rfl, ?_⟩, fun line member => ?_⟩,
        List.pairwise_cons.mpr ⟨fun line member => ?_, ordered⟩⟩
      · rw [last]
        exact le_add_of_nonneg_right here
      · obtain ⟨under, upright⟩ := below line member
        exact ⟨by linarith, upright⟩
      · rw [last]
        have under := (below line member).1
        linarith

theorem pairwise_placedLines (sized : 0 ≤ styles.textSize) {rows : List (List (Frame Rat))}
    (bounded : ∀ row ∈ rows, ∀ frame ∈ row, frame.Bounded) :
    (∀ line ∈ placedLines styles rows, line.top ≤ line.bottom) ∧
      (placedLines styles rows).Pairwise fun upper lower => upper.bottom ≤ lower.top := by
  have widths_nonneg := columnWidths_nonneg bounded
  have high : ∀ row ∈ rows,
      0 ≤ (alignedLine (columnWidths rows) (Length.sum (columnWidths rows)) row).height := by
    intro row member
    have across := sum_zip_le (le_refl 0) row _ widths_nonneg
    have wide : 0 ≤ Length.sum (columnWidths rows) := by
      rw [Length.sum_eq]
      exact List.sum_nonneg widths_nonneg
    refine (bounded_alignedLine wide (bounded row member) (width_le_columnWidths member) ?_).height
    simpa [Length.sum_eq] using across
  obtain ⟨upright, ordered⟩ := pairwise_linesFrom (leading_nonneg sized rows) high
  exact ⟨fun line member => (upright line member).2, ordered⟩

/-- With more than one column, a segment that is flush right ends where its column does, and
another one starts where its column does. -/
theorem edge_of_segmentsFrom {flushRight : Bool} {total x : Rat} {row : List (Frame Rat)}
    {widths : List Rat} {column : Nat} {segment : PlacedSegment Rat}
    (found : (segmentsFrom false flushRight total x (row.zip widths))[column]? = some segment) :
    ((flushRight ^^ column.bodd) = true →
        segment.stop = x + (widths.take (column + 1)).sum) ∧
      ((flushRight ^^ column.bodd) = false → segment.start = x + (widths.take column).sum) := by
  induction row generalizing widths x flushRight column with
  | nil => cases found
  | cons frame rest induction =>
      cases widths with
      | nil => cases found
      | cons width widths =>
          cases column with
          | zero =>
              cases found
              cases flushRight <;> simp [PlacedSegment.stop]
          | succ column =>
              rw [List.zip_cons_cons, segmentsFrom, List.getElem?_cons_succ] at found
              -- The side that is flush changes with every column, as the parity does.
              obtain ⟨ending, starting⟩ := induction found
              rw [Nat.bodd_succ, Bool.xor_not, ← Bool.not_xor]
              simp only [List.take_succ_cons, List.sum_cons, ← add_assoc]
              exact ⟨ending, starting⟩

theorem exists_edge_of_placedLines {rows : List (List (Frame Rat))}
    (several : ∃ row ∈ rows, 1 < row.length) {column : Nat} (even : Even column) :
    ∃ edge, ∀ line ∈ placedLines styles rows,
      (∀ segment, line.segments[column]? = some segment → segment.stop = edge) ∧
        ∀ segment, line.segments[column + 1]? = some segment → segment.start = edge := by
  obtain ⟨longest, isLongest, long⟩ := several
  have not_single : decide ((columnWidths rows).length = 1) = false := by
    have bound := length_le_columnWidths isLongest
    exact decide_eq_false (by omega)
  have flush : (true ^^ column.bodd) = true := by
    have parity := Nat.mod_two_of_bodd column
    rw [Nat.even_iff.mp even] at parity
    cases odd : column.bodd with
    | false => rfl
    | true => rw [odd] at parity; cases parity
  refine ⟨((columnWidths rows).take (column + 1)).sum, fun line member => ?_⟩
  obtain ⟨row, -, top, rfl⟩ := exists_row_of_mem_linesFrom member
  simp only [placedLine, not_single]
  constructor
  · intro segment found
    rw [(edge_of_segmentsFrom found).1 flush, Length.zero_eq, zero_add]
  · intro segment found
    rw [(edge_of_segmentsFrom found).2 (by rw [Nat.bodd_succ, Bool.xor_not, flush]; rfl),
      Length.zero_eq, zero_add]

end Compose

namespace Layout

open Content

variable {faces : List (FontFace Rat)} {styles : Styles Rat} {span : Span} {body : Content}

/-- An equation has a frame unless its elements are laid out too deep. -/
theorem exists_frame_iff (some_face : faces ≠ []) (plain : body.Plain) :
    (∃ frame, (equation faces styles body span).result = .ok frame) ↔
      ∀ depth element, LaidOut (rowMembers [body]) depth element → depth ≤ maxLayoutDepth := by
  have settles : Settles True _ _ _ (equation faces styles body span) :=
    settles_equation (fun _ => some_face) (fun _ => plain)
  rw [forall_fits_iff] at settles
  unfold Settles at settles
  split at settles
  · rename_i frame made
    exact iff_of_true ⟨frame, made⟩ (settles.2 trivial).1
  · rename_i stop made
    refine iff_of_false ?_ (settles trivial).1
    rintro ⟨frame, other⟩
    rw [made] at other
    cases other

theorem rows_of_equation (sound : ∀ face ∈ faces, face.Sound) (sized : 0 ≤ styles.textSize) :
    (equation faces styles body span).Yields fun frame => ∃ rows,
      frame = Compose.equation styles span rows ∧
        List.Forall₂ (List.Forall₂ (IsRow faces styles)) (written body) rows ∧
        ∀ row ∈ rows, ∀ frame ∈ row, frame.Bounded := by
  have set : (lines faces styles (written body)).Yields _ := lines_rows (written body)
  have bounded := bounded_lines sound sized (written body)
  have both : (lines faces styles (written body)).Yields _ :=
    fun rows made => And.intro (set rows made) (bounded rows made)
  have divided : divide (flatten [body]) = written body := divide_eq _
  unfold equation
  rw [divided]
  exact both.bind fun rows holds => Outcome.yields_pure ⟨rows, rfl, holds⟩

theorem exists_long_row {rows : List (List (Frame Rat))}
    (set : List.Forall₂ (List.Forall₂ (IsRow faces styles)) (written body) rows)
    {content : Content} (member : content ∈ flatten [body])
    (aligns : content.isAlignPoint = true) : ∃ row ∈ rows, 1 < row.length := by
  obtain ⟨line, isLine, long⟩ := exists_line_of_alignPoint member aligns
  obtain ⟨index, bound, rfl⟩ := List.mem_iff_getElem.mp isLine
  have inside : index < rows.length := set.length_eq ▸ bound
  have same : (written body)[index].length = rows[index].length :=
    (set.get bound inside).length_eq
  exact ⟨rows[index], List.getElem_mem inside, same ▸ long⟩

end Layout

open Content

/-- In exact arithmetic, the layout of an equation has one group for every line, in the order of
the lines and each below the ones before it. With an alignment point in some line, the segments
before the first, the third and every other odd alignment point of a line end where the segments
after it start, and this place is the same in all lines. -/
theorem lines_of_equation (faces : List (FontFace Rat)) (styles : Styles Rat) (body : Content)
    (span : Span) (some_face : faces ≠ []) (sound : ∀ face ∈ faces, face.Sound)
    (sized : 0 ≤ styles.textSize) (plain : body.Plain) :
    let layout := Layout.equation faces styles body span
    ((∃ frame, layout.result = .ok frame) ↔
        ∀ depth element, LaidOut (rowMembers [body]) depth element → depth ≤ maxLayoutDepth) ∧
      ∀ frame, layout.result = .ok frame → ∃ lines : List (PlacedLine Rat),
        frame.items = .tag .origin .start span :: lines.map PlacedLine.item ++
            [.tag ⟨frame.width, frame.height⟩ .finish span] ∧
          lines.length = (Layout.flatten [body]).countP isLinebreak + 1 ∧
          List.Forall₂ (List.Forall₂ (Layout.IsRow faces styles)) (Layout.written body)
            (lines.map PlacedLine.frames) ∧
          (∀ line ∈ lines, line.top ≤ line.bottom) ∧
          (lines.Pairwise fun upper lower => upper.bottom ≤ lower.top) ∧
          ((∃ content ∈ Layout.flatten [body], content.isAlignPoint = true) →
            ∀ column, Even column → ∃ edge, ∀ line ∈ lines,
              (∀ segment, line.segments[column]? = some segment → segment.stop = edge) ∧
                ∀ segment, line.segments[column + 1]? = some segment →
                  segment.start = edge) := by
  intro layout
  refine ⟨Layout.exists_frame_iff some_face plain, fun frame made => ?_⟩
  obtain ⟨rows, rfl, set, bounded⟩ := Layout.rows_of_equation sound sized frame made
  have lengths : (Compose.placedLines styles rows).length = (Layout.written body).length := by
    rw [set.length_eq, ← List.length_map PlacedLine.frames, Compose.frames_placedLines]
  obtain ⟨upright, ordered⟩ := Compose.pairwise_placedLines sized bounded
  refine ⟨Compose.placedLines styles rows, Compose.items_equation styles span rows,
    lengths.trans (Layout.length_written body), ?_, upright, ordered, ?_⟩
  · rw [Compose.frames_placedLines]
    exact set
  · rintro ⟨content, member, aligns⟩ column even
    exact Compose.exists_edge_of_placedLines (Layout.exists_long_row set member aligns) even

/-- Lines of three segments, of an empty one and another, and of one. -/
def raggedEquation : Content :=
  let span := Span.numbered "main"
  .sequence
    [.plain "a" (span 2), .alignPoint (span 3), .plain "b" (span 4), .alignPoint (span 5),
     .frac (.plain "c" (span 6)) (.plain "d" (span 7)) (span 8), .linebreak (span 9),
     .alignPoint (span 10), .plain "e" (span 11), .linebreak (span 12),
     .sequence [.plain "f" (span 13), .plain "g" (span 14)] (span 15)]
    (span 16)

theorem lines_of_ragged_equation :
    raggedEquation.Plain ∧
      ∃ frame, (Layout.equation FontFace.catalog .standard raggedEquation
          (.numbered "main" 1)).result = .ok frame ∧
        ∃ lines : List (PlacedLine Rat), lines.length = 3 ∧
          frame.items = .tag .origin .start (.numbered "main" 1) ::
            lines.map PlacedLine.item ++
              [.tag ⟨frame.width, frame.height⟩ .finish (.numbered "main" 1)] ∧
          (lines.Pairwise fun upper lower => upper.bottom ≤ lower.top) ∧
          ∃ edge, ∀ line ∈ lines,
            (∀ segment, line.segments[0]? = some segment → segment.stop = edge) ∧
              ∀ segment, line.segments[1]? = some segment → segment.start = edge := by
  have plain : raggedEquation.Plain := by
    simp [Content.Plain, raggedEquation, Content.plain, Content.elements, Content.elementsOfList]
  have aligned : ∃ content ∈ Layout.flatten [raggedEquation],
      content.isAlignPoint = true :=
    ⟨.alignPoint (.numbered "main" 3), by simp [Layout.flatten, Layout.flattenOne, raggedEquation],
      rfl⟩
  have laid : (Layout.equation FontFace.catalog (.standard : Styles Rat) raggedEquation
      (.numbered "main" 1)).result.isOk = true := by
    decide +kernel
  obtain ⟨-, placed⟩ := lines_of_equation FontFace.catalog .standard raggedEquation
    (.numbered "main" 1) (by simp [FontFace.catalog]) FontFace.sound_catalog
    (by norm_num [Styles.standard]) plain
  cases made : (Layout.equation FontFace.catalog (.standard : Styles Rat) raggedEquation
      (.numbered "main" 1)).result with
  | error stop =>
      rw [made] at laid
      cases laid
  | ok frame =>
      obtain ⟨lines, items, count, -, -, ordered, edges⟩ := placed frame made
      exact ⟨plain, frame, rfl, lines, count, items, ordered, edges aligned 0 Even.zero⟩

end EquationMap
