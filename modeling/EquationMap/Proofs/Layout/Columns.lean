import EquationMap.Proofs.Layout.Bounds

namespace EquationMap.Compose

/-! Grids and whole equations hold what is in them. What is placed side by side, with a gap after
each, fits if the sum of all widths and gaps does, but for the last gap. -/

variable {styles : Styles Rat} {face : FontFace Rat} {span : Span}

theorem sum_nonneg_of_gaps {β : Type} (extent : β → Rat) {gap : Rat} (gap_nonneg : 0 ≤ gap)
    {entries : List β} (nonneg : ∀ entry ∈ entries, 0 ≤ extent entry) :
    0 ≤ (entries.map fun entry => extent entry + gap).sum := by
  apply List.sum_nonneg
  refine List.forall_mem_map.mpr fun entry member => ?_
  exact add_nonneg (nonneg entry member) gap_nonneg

theorem bounded_gridRow (centered : Bool) {gap baseline : Rat} (gap_nonneg : 0 ≤ gap)
    {cells : List (Frame Rat × Rat)} {x : Rat} {frame : Frame Rat}
    (fits : ∀ cell ∈ cells, cell.1.Bounded ∧ cell.1.width ≤ cell.2 ∧
      cell.1.ascent ≤ baseline ∧ baseline + cell.1.descent ≤ frame.height)
    (bounded : frame.Bounded) (start : 0 ≤ x)
    (across : x + (cells.map fun cell => cell.2 + gap).sum ≤ frame.width + gap) :
    (gridRow centered gap baseline x frame cells).Bounded ∧
      (gridRow centered gap baseline x frame cells).size = frame.size := by
  induction cells generalizing x frame with
  | nil => exact ⟨bounded, rfl⟩
  | cons cell rest induction =>
      obtain ⟨cell, width⟩ := cell
      obtain ⟨⟨cell_bounded, narrow, above, below⟩, later⟩ := List.forall_mem_cons.mp fits
      have cell_wide := cell_bounded.width
      have others := sum_nonneg_of_gaps Prod.snd gap_nonneg fun other member =>
        (later other member).1.width.trans (later other member).2.1
      rw [List.map_cons, List.sum_cons] at across
      rw [gridRow]
      generalize inset_eq : (if centered = true then (width - cell.width) / 2.0 else 0.0) = inset
      have inset_fits : 0 ≤ inset ∧ inset + cell.width ≤ width := by
        rw [← inset_eq]
        dsimp only at cell_wide narrow
        split <;> constructor <;> linarith
      have pushed : (frame.pushGroup ⟨x + inset, baseline - cell.ascent⟩ cell).Bounded := by
        apply bounded.pushGroup cell_bounded
        simp only [Frame.width, Frame.height, Frame.ascent, Frame.descent] at *
        constructor <;> dsimp only <;> linarith
      refine induction ?_ pushed ?_ ?_
      · exact later
      · dsimp only at cell_wide narrow
        linarith
      · change _ ≤ frame.width + gap
        linarith

theorem sum_gaps_le {β : Type} (extent : β → Rat) {gap : Rat} (gap_nonneg : 0 ≤ gap)
    (entries : List β) :
    (entries.map fun entry => extent entry + gap).sum ≤
      Length.sum (entries.map extent) + gap * Length.ofNat (entries.length - 1) + gap := by
  rw [Length.sum_eq, Length.ofNat_eq]
  induction entries with
  | nil => simpa using gap_nonneg
  | cons entry rest induction =>
      cases rest with
      | nil => simp
      | cons second rest =>
          simp only [List.map_cons, List.sum_cons, List.length_cons, Nat.add_sub_cancel,
            Nat.cast_add, Nat.cast_one] at induction ⊢
          linarith

/-- Whether the cells of a row fit into their columns, and between an ascent and a descent. -/
structure RowFits (gap width : Rat) (widths : List Rat) (row : List (Frame Rat))
    (ascent descent : Rat) : Prop where
  high : 0 ≤ ascent + descent
  cells : ∀ cell ∈ row.zip widths, cell.1.Bounded ∧ cell.1.width ≤ cell.2 ∧
    cell.1.ascent ≤ ascent ∧ cell.1.descent ≤ descent
  across : ((row.zip widths).map fun cell => cell.2 + gap).sum ≤ width + gap

theorem bounded_gridRows {centered : Bool} {columnGap rowGap : Rat} {widths : List Rat}
    (columnGap_nonneg : 0 ≤ columnGap) (rowGap_nonneg : 0 ≤ rowGap)
    {rows : List (List (Frame Rat) × Rat × Rat)} {y : Rat} {frame : Frame Rat}
    (fits : ∀ row ∈ rows, RowFits columnGap frame.width widths row.1 row.2.1 row.2.2)
    (bounded : frame.Bounded) (start : 0 ≤ y)
    (down : y + (rows.map fun row => row.2.1 + row.2.2 + rowGap).sum ≤ frame.height + rowGap) :
    (gridRows centered columnGap rowGap widths y frame rows).Bounded := by
  induction rows generalizing y frame with
  | nil => exact bounded
  | cons row rest induction =>
      obtain ⟨row, ascent, descent⟩ := row
      obtain ⟨⟨high, cells, across⟩, later⟩ := List.forall_mem_cons.mp fits
      have others := sum_nonneg_of_gaps
        (fun row : List (Frame Rat) × Rat × Rat => row.2.1 + row.2.2) rowGap_nonneg
        fun other member => (later other member).high
      rw [List.map_cons, List.sum_cons] at down
      dsimp only at high cells across down others
      have placed : ∀ cell ∈ row.zip widths, cell.1.Bounded ∧ cell.1.width ≤ cell.2 ∧
          cell.1.ascent ≤ y + ascent ∧ y + ascent + cell.1.descent ≤ frame.height := by
        intro cell member
        obtain ⟨cell_bounded, narrow, above, below⟩ := cells cell member
        exact ⟨cell_bounded, narrow, by linarith, by linarith⟩
      obtain ⟨filled, size⟩ := bounded_gridRow centered columnGap_nonneg placed
        bounded (x := 0.0) (by norm_num) (by linarith)
      rw [gridRows]
      apply induction _ filled (by linarith)
      · simp only [Frame.height, size] at down ⊢
        linarith
      · simpa only [Frame.width, size] using later

theorem columnWidths_nonneg {cells : List (List (Frame Rat))}
    (bounded : ∀ row ∈ cells, ∀ cell ∈ row, cell.Bounded) :
    ∀ width ∈ columnWidths cells, 0 ≤ width := by
  refine List.forall_mem_map.mpr fun column _ => Length.maximum_nonneg ?_
  intro width member
  obtain ⟨row, isRow, found⟩ := List.mem_filterMap.mp member
  obtain ⟨cell, isCell, rfl⟩ := Option.map_eq_some_iff.mp found
  exact (bounded row isRow cell (List.mem_of_getElem? isCell)).width

theorem width_le_columnWidths {cells : List (List (Frame Rat))} {row : List (Frame Rat)}
    (isRow : row ∈ cells) : ∀ cell ∈ row.zip (columnWidths cells), cell.1.width ≤ cell.2 := by
  intro cell member
  obtain ⟨column, bound, rfl⟩ := List.mem_iff_getElem.mp member
  rw [List.length_zip, lt_min_iff] at bound
  simp only [List.getElem_zip, columnWidths, List.getElem_map, List.getElem_range]
  apply Length.le_maximum
  refine List.mem_filterMap.mpr ⟨row, isRow, ?_⟩
  rw [List.getElem?_eq_getElem bound.1]
  rfl

theorem sum_zip_le {β : Type} {gap : Rat} (gap_nonneg : 0 ≤ gap) (row : List β) :
    ∀ widths : List Rat, (∀ width ∈ widths, 0 ≤ width) →
      ((row.zip widths).map fun cell => cell.2 + gap).sum ≤
        (widths.map fun width => width + gap).sum := by
  induction row with
  | nil =>
      intro widths nonneg
      exact sum_nonneg_of_gaps _ gap_nonneg nonneg
  | cons cell rest induction =>
      intro widths nonneg
      cases widths with
      | nil => rfl
      | cons width widths =>
          simp only [List.zip_cons_cons, List.map_cons, List.sum_cons]
          have := induction widths (List.forall_mem_cons.mp nonneg).2
          linarith

theorem bounded_grid (sized : 0 ≤ styles.textSize) (sound : face.Sound) (centered : Bool)
    {cells : List (List (Frame Rat))} (bounded : ∀ row ∈ cells, ∀ cell ∈ row, cell.Bounded) :
    (grid face styles centered cells).Bounded := by
  have size_nonneg := Styles.fontSize_nonneg sized
  have widths_nonneg := columnWidths_nonneg bounded
  unfold grid
  extract_lets size axis columnGap rowGap widths metrics width height
  have columnGap_nonneg : 0 ≤ columnGap := mul_nonneg (by norm_num) size_nonneg
  have rowGap_nonneg : 0 ≤ rowGap := mul_nonneg (by norm_num) size_nonneg
  have line : 0 ≤ face.ascender * styles.fontSize + -face.descender * styles.fontSize := by
    rw [← add_mul]
    exact mul_nonneg (by linarith [sound.extent]) size_nonneg
  have metric_high : ∀ metric ∈ metrics, 0 ≤ metric.1 + metric.2 := by
    refine List.forall_mem_map.mpr fun row _ => line.trans (add_le_add ?_ ?_)
    · exact Length.le_foldl_max _ _ _ List.mem_cons_self
    · exact Length.le_foldl_max _ _ _ List.mem_cons_self
  -- Columns and rows are summed with a gap behind each, one gap more than there are.
  have across : (widths.map fun width => width + columnGap).sum ≤ width + columnGap := by
    simpa only [id_eq, List.map_id] using sum_gaps_le id columnGap_nonneg widths
  have down : ((cells.zip metrics).map fun row => row.2.1 + row.2.2 + rowGap).sum ≤
      height + rowGap := by
    have same : (cells.zip metrics).map (fun row => row.2.1 + row.2.2 + rowGap) =
        metrics.map fun metric => metric.1 + metric.2 + rowGap := by
      simp only [metrics, ← List.map_prod_left_eq_zip, List.map_map]
      rfl
    have sum := sum_gaps_le (fun metric : Rat × Rat => metric.1 + metric.2) rowGap_nonneg metrics
    rw [show metrics.length = cells.length from List.length_map _] at sum
    rw [same]
    exact sum
  have rows : ∀ row ∈ cells.zip metrics,
      RowFits columnGap width widths row.1 row.2.1 row.2.2 := by
    intro entry member
    have high := metric_high _ (List.of_mem_zip member).2
    simp only [metrics, ← List.map_prod_left_eq_zip] at member
    obtain ⟨row, isRow, rfl⟩ := List.mem_map.mp member
    refine ⟨high, fun cell inColumn => ?_, ?_⟩
    · have isCell := (List.of_mem_zip inColumn).1
      refine ⟨bounded row isRow _ isCell, width_le_columnWidths isRow cell inColumn, ?_, ?_⟩
      · exact Length.le_foldl_max _ _ _ (List.mem_cons_of_mem _ (List.mem_map_of_mem isCell))
      · exact Length.le_foldl_max _ _ _ (List.mem_cons_of_mem _ (List.mem_map_of_mem isCell))
    · exact (sum_zip_le columnGap_nonneg row widths widths_nonneg).trans across
  have wide : 0 ≤ width := by
    apply add_nonneg
    · rw [Length.sum_eq]
      exact List.sum_nonneg widths_nonneg
    · rw [Length.ofNat_eq]
      exact mul_nonneg columnGap_nonneg (Nat.cast_nonneg _)
  have high : 0 ≤ height := by
    apply add_nonneg
    · rw [Length.sum_eq]
      exact List.sum_nonneg (List.forall_mem_map.mpr metric_high)
    · rw [Length.ofNat_eq]
      exact mul_nonneg rowGap_nonneg (Nat.cast_nonneg _)
  clear_value height width axis
  apply bounded_gridRows columnGap_nonneg rowGap_nonneg
  · exact rows
  · exact Frame.bounded_soft wide (by linarith)
  · norm_num
  · simp only [Frame.height, Frame.soft]
    linarith

theorem bounded_alignedFrom {single flushRight : Bool} {ascent : Rat}
    {segments : List (Frame Rat × Rat)} {x : Rat} {frame : Frame Rat}
    (fits : ∀ segment ∈ segments, segment.1.Bounded ∧ segment.1.width ≤ segment.2 ∧
      segment.1.ascent ≤ ascent ∧ ascent + segment.1.descent ≤ frame.height)
    (bounded : frame.Bounded) (start : 0 ≤ x)
    (across : x + (segments.map Prod.snd).sum ≤ frame.width) :
    (alignedFrom single ascent flushRight x frame segments).Bounded := by
  induction segments generalizing x frame flushRight with
  | nil => exact bounded
  | cons segment rest induction =>
      obtain ⟨segment, width⟩ := segment
      obtain ⟨⟨segment_bounded, narrow, above, below⟩, later⟩ := List.forall_mem_cons.mp fits
      have segment_wide := segment_bounded.width
      have others : 0 ≤ (rest.map Prod.snd).sum := by
        apply List.sum_nonneg
        refine List.forall_mem_map.mpr fun other member => ?_
        exact (later other member).1.width.trans (later other member).2.1
      rw [List.map_cons, List.sum_cons] at across
      dsimp only at narrow above below segment_wide across
      rw [alignedFrom]
      generalize position_eq : (if single = true then (frame.width - segment.width) / 2.0
        else if flushRight = true then x + width - segment.width else x) = position
      have placed : 0 ≤ position ∧ position + segment.width ≤ frame.width := by
        rw [← position_eq]
        split_ifs <;> constructor <;> linarith
      have pushed : (frame.pushFrame ⟨position, ascent - segment.ascent⟩ segment).Bounded := by
        apply bounded.pushFrame segment_bounded
        simp only [Frame.width, Frame.height, Frame.ascent, Frame.descent] at *
        constructor <;> dsimp only <;> linarith
      refine induction ?_ pushed ?_ ?_
      · exact later
      · linarith
      · change _ ≤ frame.width
        linarith

theorem alignedFrom_size {single flushRight : Bool} {ascent x : Rat} {frame : Frame Rat}
    (segments : List (Frame Rat × Rat)) :
    (alignedFrom single ascent flushRight x frame segments).size = frame.size := by
  induction segments generalizing flushRight x frame with
  | nil => rfl
  | cons segment rest induction => exact induction

theorem bounded_alignedLine {widths : List Rat} {width : Rat} {segments : List (Frame Rat)}
    (wide : 0 ≤ width) (bounded : ∀ segment ∈ segments, segment.Bounded)
    (narrow : ∀ segment ∈ segments.zip widths, segment.1.width ≤ segment.2)
    (across : ((segments.zip widths).map Prod.snd).sum ≤ width) :
    (alignedLine widths width segments).Bounded := by
  unfold alignedLine
  extract_lets ascent descent
  have above : ∀ segment ∈ segments, segment.ascent ≤ ascent :=
    fun segment member => Length.le_maximum (List.mem_map_of_mem member)
  have below : ∀ segment ∈ segments, segment.descent ≤ descent :=
    fun segment member => Length.le_maximum (List.mem_map_of_mem member)
  have high : 0 ≤ ascent + descent := by
    cases segments with
    | nil => simp [ascent, descent, Length.maximum]
    | cons segment rest =>
        have height := (bounded segment List.mem_cons_self).height
        have higher := above segment List.mem_cons_self
        have lower := below segment List.mem_cons_self
        simp only [Frame.height, Frame.ascent, Frame.descent] at height higher lower
        linarith
  clear_value ascent descent
  apply bounded_alignedFrom
  · intro segment member
    have isSegment := (List.of_mem_zip member).1
    refine ⟨bounded _ isSegment, narrow segment member, above _ isSegment, ?_⟩
    exact add_le_add_right (below _ isSegment) ascent
  · exact Frame.bounded_soft wide high
  · norm_num
  · simpa [Frame.width, Frame.soft] using across

theorem bounded_stackFrom {leading : Rat} (leading_nonneg : 0 ≤ leading)
    {lines : List (Frame Rat)} {y : Rat} {frame : Frame Rat}
    (fits : ∀ line ∈ lines, line.Bounded ∧ line.width ≤ frame.width) (bounded : frame.Bounded)
    (start : 0 ≤ y)
    (down : y + (lines.map fun line => line.height + leading).sum ≤ frame.height + leading) :
    (stackFrom leading y frame lines).Bounded ∧
      (stackFrom leading y frame lines).size = frame.size := by
  induction lines generalizing y frame with
  | nil => exact ⟨bounded, rfl⟩
  | cons line rest induction =>
      obtain ⟨⟨line_bounded, narrow⟩, later⟩ := List.forall_mem_cons.mp fits
      have line_high := line_bounded.height
      have others := sum_nonneg_of_gaps Frame.height leading_nonneg
        fun other member => (later other member).1.height
      rw [List.map_cons, List.sum_cons] at down
      rw [stackFrom]
      have pushed : (frame.pushGroup ⟨0.0, y⟩ line).Bounded := by
        apply bounded.pushGroup line_bounded
        simp only [Frame.width, Frame.height] at *
        constructor <;> dsimp only <;> linarith
      refine induction ?_ pushed ?_ ?_
      · exact later
      · linarith
      · change _ ≤ frame.height + leading
        linarith

theorem bounded_stack (sized : 0 ≤ styles.textSize) {width : Rat} (wide : 0 ≤ width)
    {lines : List (Frame Rat)} (fits : ∀ line ∈ lines, line.Bounded ∧ line.width ≤ width) :
    (stack styles width span lines).Bounded := by
  unfold stack
  extract_lets leading height baseline frame
  have leading_nonneg : 0 ≤ leading := by
    have spaced : 0 ≤ 0.65 * styles.fontSize :=
      mul_nonneg (by norm_num) (Styles.fontSize_nonneg sized)
    simp only [leading]
    split
    · exact spaced
    · norm_num
  have down := sum_gaps_le Frame.height leading_nonneg lines
  have high : 0 ≤ height := by
    apply add_nonneg
    · rw [Length.sum_eq]
      exact List.sum_nonneg (List.forall_mem_map.mpr fun line member => (fits line member).1.height)
    · rw [Length.ofNat_eq]
      exact mul_nonneg leading_nonneg (Nat.cast_nonneg _)
  have start : (frame.push (.tag .origin .start span)).Bounded :=
    Frame.Bounded.push ⟨wide, high, by simp [frame]⟩ .tag
  have fit : 0.0 + (lines.map fun line => line.height + leading).sum ≤ height + leading := by
    rw [Length.zero_eq, zero_add]
    exact down
  obtain ⟨stacked, -⟩ := bounded_stackFrom leading_nonneg fits start (by norm_num) fit
  exact stacked.push .tag

theorem bounded_equation (sized : 0 ≤ styles.textSize) {lines : List (List (Frame Rat))}
    (bounded : ∀ line ∈ lines, ∀ segment ∈ line, segment.Bounded) :
    (equation styles span lines).Bounded := by
  unfold equation
  extract_lets widths width
  have widths_nonneg : ∀ width ∈ widths, 0 ≤ width := columnWidths_nonneg bounded
  have wide : 0 ≤ width := by
    simp only [width, Length.sum_eq]
    exact List.sum_nonneg widths_nonneg
  apply bounded_stack sized wide
  refine List.forall_mem_map.mpr fun line member => ⟨?_, ?_⟩
  · apply bounded_alignedLine wide (bounded line member) (width_le_columnWidths member)
    have sum := sum_zip_le (le_refl 0) line widths widths_nonneg
    simpa [width, Length.sum_eq] using sum
  · exact (congrArg Size.width (alignedFrom_size _)).le

theorem bounded_fill (region : Region Rat) {frame : Frame Rat} (bounded : frame.Bounded) :
    (fill region frame).Bounded := by
  unfold fill
  split
  · rename_i width given
    split
    · rename_i asked
      rw [Bool.and_eq_true, Length.less_iff] at asked
      have wide := bounded.width
      apply Frame.Bounded.pushFrame _ bounded
      · simp only [Frame.width, Frame.height] at *
        constructor <;> simp <;> linarith
      · exact ⟨wide.trans asked.2.le, bounded.height, by simp⟩
    · exact bounded
  · exact bounded

end EquationMap.Compose
