import EquationMap.Proofs.Layout.Columns
import EquationMap.Proofs.Layout.Settling
import EquationMap.Proofs.Spans.Fragments

namespace EquationMap

/-! Whatever is laid out of a text lies inside its frame, and within every nested frame. -/

namespace FontFace

theorem sound_catalog : ∀ face ∈ (catalog : List (FontFace Rat)), face.Sound := by
  have groups : ∀ group ∈ (advanceGroups : List (String × Rat)), 0 ≤ group.2 := by
    simp only [advanceGroups, List.forall_mem_cons]
    norm_num
  have widths : ∀ entry ∈ (defaultAdvances : List (Char × Rat)), 0 ≤ entry.2 := by
    intro entry member
    obtain ⟨group, isGroup, member⟩ := List.mem_flatMap.mp member
    obtain ⟨c, -, rfl⟩ := List.mem_map.mp member
    exact groups group isGroup
  have advance (face : FontFace Rat) (given : face.advances = defaultAdvances)
      (default_nonneg : 0 ≤ face.defaultAdvance) (c : Char) : 0 ≤ face.advance c := by
    unfold FontFace.advance
    rw [given]
    cases found : (defaultAdvances : List (Char × Rat)).lookup c with
    | none => exact default_nonneg
    | some width =>
        obtain ⟨before, after, split, -⟩ := List.lookup_eq_some_iff.mp found
        exact widths (c, width) (by simp [split])
  simp only [catalog, List.forall_mem_cons, List.not_mem_nil, IsEmpty.forall_iff, implies_true,
    and_true]
  refine ⟨⟨?_, ?_, advance _ rfl ?_⟩, ⟨?_, ?_, advance _ rfl ?_⟩, ⟨?_, ?_, advance _ rfl ?_⟩,
    ⟨?_, ?_, advance _ rfl ?_⟩⟩ <;> norm_num

theorem mem_of_best? {α : Type} [Length α] {weight : Int} {faces : List (FontFace α)}
    {face : FontFace α} (found : best? weight faces = some face) : face ∈ faces := by
  have kept (rest : List (FontFace α)) (first : FontFace α) :
      rest.foldl (fun best face => if suitsBetter weight face best then face else best) first ∈
        first :: rest := by
    induction rest generalizing first with
    | nil => exact List.mem_singleton_self first
    | cons second rest induction =>
        rw [List.foldl_cons]
        refine List.cons_subset.mpr ⟨?_, ?_⟩ (induction _)
        · split <;> simp
        · simp
  cases faces with
  | nil => cases found
  | cons first rest =>
      cases found
      exact kept rest first

theorem mem_of_mem_select {α : Type} [Length α] {faces : List (FontFace α)}
    {families : List String} {weight : Int} {face : FontFace α}
    (member : face ∈ select faces families weight) : face ∈ faces := by
  obtain ⟨family, -, best⟩ := List.mem_filterMap.mp member
  exact List.mem_of_mem_filter (mem_of_best? best)

end FontFace

namespace TextRun

variable {faces : List (FontFace Rat)}

/-- Whether a run is of a size and of glyphs that have widths, in a face with sound measures. -/
structure Sound (run : TextRun Rat) : Prop where
  face : run.face.Sound
  size : 0 ≤ run.size
  glyphs : ∀ glyph ∈ run.glyphs, 0 ≤ glyph.advance

theorem Sound.width {run : TextRun Rat} (sound : run.Sound) : 0 ≤ run.width := by
  apply mul_nonneg _ sound.size
  rw [Length.sum_eq]
  exact List.sum_nonneg (List.forall_mem_map.mpr sound.glyphs)

theorem bounded_place {ascent : Rat} {runs : List (TextRun Rat)} {x : Rat} {frame : Frame Rat}
    (fits : ∀ run ∈ runs, run.Sound ∧ run.face.ascender * run.size ≤ ascent ∧
      ascent + -run.face.descender * run.size ≤ frame.height)
    (bounded : frame.Bounded) (start : 0 ≤ x)
    (across : x + (runs.map TextRun.width).sum ≤ frame.width) :
    (place ascent x frame runs).Bounded := by
  induction runs generalizing x frame with
  | nil => exact bounded
  | cons run rest induction =>
      obtain ⟨⟨sound, above, below⟩, later⟩ := List.forall_mem_cons.mp fits
      have wide := sound.width
      have extent : run.face.descender * run.size ≤ run.face.ascender * run.size :=
        mul_le_mul_of_nonneg_right sound.face.extent sound.size
      have others : 0 ≤ (rest.map TextRun.width).sum :=
        List.sum_nonneg (List.forall_mem_map.mpr fun other member => (later other member).1.width)
      rw [List.map_cons, List.sum_cons] at across
      rw [place]
      have pushed : (frame.push (.text ⟨x, ascent⟩ run)).Bounded := by
        refine bounded.push (.text (Corners.inside_boxAt_iff.mpr ⟨?_, ?_⟩)) <;>
          simp only [Frame.width, Frame.height] at * <;> constructor <;>
          simp only [TextRun.corners, Point.x_add, Point.y_add, Length.zero_eq] <;> linarith
      refine induction ?_ pushed ?_ ?_
      · exact later
      · linarith
      · change _ ≤ frame.width
        linarith

theorem bounded_frameOf {runs : List (TextRun Rat)} (sound : ∀ run ∈ runs, run.Sound) :
    (frameOf runs).Bounded := by
  unfold frameOf
  split
  · exact Frame.bounded_empty
  · rename_i first rest
    extract_lets runs ascent descent
    have above : ∀ run ∈ runs, run.face.ascender * run.size ≤ ascent :=
      fun run member => Length.le_maximum (List.mem_map_of_mem member)
    have below : ∀ run ∈ runs, -run.face.descender * run.size ≤ descent :=
      fun run member => Length.le_maximum (List.mem_map_of_mem member)
    have high : 0 ≤ ascent + descent := by
      have extent : 0 ≤ (first.face.ascender - first.face.descender) * first.size :=
        mul_nonneg (by linarith [(sound first List.mem_cons_self).face.extent])
          (sound first List.mem_cons_self).size
      linarith [above first List.mem_cons_self, below first List.mem_cons_self]
    have wide : 0 ≤ Length.sum (runs.map TextRun.width) := by
      rw [Length.sum_eq]
      exact List.sum_nonneg (List.forall_mem_map.mpr fun run member => (sound run member).width)
    clear_value ascent descent
    apply bounded_place
    · exact fun run member =>
        ⟨sound run member, above run member, add_le_add_right (below run member) ascent⟩
    · exact Frame.bounded_soft wide high
    · norm_num
    · simp [Frame.width, Frame.soft, Length.sum_eq]

theorem glyphsFrom_sets {span : Span} {offset : Nat} {text : List Char}
    {glyphs : List (Shaped Rat)} (made : glyphsFrom faces span offset text = .ok glyphs) :
    ∀ shaped ∈ glyphs, shaped.face ∈ faces ∧
      shaped.glyph.advance = shaped.face.advance shaped.char := by
  induction text generalizing offset glyphs with
  | nil =>
      cases made
      simp
  | cons c rest induction =>
      obtain ⟨face, isFace, index, others, -, later, rfl⟩ := exists_of_glyphsFrom_cons made
      exact List.forall_mem_cons.mpr ⟨⟨isFace, rfl⟩, induction later⟩

theorem bounded_layout (sound : ∀ face ∈ faces, face.Sound) (styles : Styles Rat)
    (text : String) {size : Rat} (size_nonneg : 0 ≤ size) (span : Span) (italic : Bool) :
    Outcome.Yields Frame.Bounded (layout faces styles text size span italic) := by
  unfold layout
  split
  · rename_i glyphs made
    refine Outcome.yields_pure (bounded_frameOf fun run member => ?_)
    obtain ⟨shaped, isShaped, formed⟩ := List.mem_filterMap.mp member
    have set : ∀ glyph ∈ shaped, glyph.face ∈ faces ∧
        glyph.glyph.advance = glyph.face.advance glyph.char :=
      fun glyph inRun => glyphsFrom_sets made glyph (runsOf_subset glyphs shaped isShaped inRun)
    cases shaped with
    | nil => cases formed
    | cons first rest =>
        cases formed
        refine ⟨sound _ (set first List.mem_cons_self).1, size_nonneg, ?_⟩
        refine List.forall_mem_map.mpr fun glyph inRun => ?_
        rw [(set glyph inRun).2]
        exact (sound _ (set glyph inRun).1).advance _
  · exact (show Outcome.Yields (fun _ => True) _ from fun _ _ => trivial).bind fun _ _ =>
      Outcome.yields_pure Frame.bounded_empty

end TextRun

namespace Layout

open Outcome

variable {faces : List (FontFace Rat)} {styles : Styles Rat} {levels : Nat} {span : Span}

theorem sound_primaryFace (sound : ∀ face ∈ faces, face.Sound) :
    (primaryFace faces).Yields FontFace.Sound := by
  unfold primaryFace
  split
  · exact yields_stop _
  · exact yields_pure (sound _ List.mem_cons_self)

theorem bounded_text (sound : ∀ face ∈ faces, face.Sound) (sized : 0 ≤ styles.textSize)
    (written : String) (upright limits : Bool) :
    (text faces styles written upright limits span).Yields fun piece => piece.frame.Bounded := by
  have size_nonneg := Styles.fontSize_nonneg sized
  unfold text
  extract_lets cls large size italic
  have large_nonneg : 0 ≤ size := by
    simp only [size]
    split
    · exact mul_nonneg size_nonneg (by norm_num)
    · exact size_nonneg
  refine (TextRun.bounded_layout sound styles written large_nonneg span italic).bind
    fun frame bounded => ?_
  split
  · refine (sound_primaryFace sound).bind fun face _ => ?_
    extract_lets shift parts
    have placed : ∀ part ∈ parts, part.frame.Bounded ∧ 0 ≤ part.x := by
      simp [parts, bounded]
    obtain ⟨wide, beside⟩ := Part.beside_width placed
    exact yields_pure (Part.bounded_compose wide beside)
  · exact yields_pure bounded

theorem bounded_delimiterText (sound : ∀ face ∈ faces, face.Sound) {size : Rat}
    (size_nonneg : 0 ≤ size) (written : String) :
    (delimiterText faces styles size written span).Yields fun frame =>
      ∀ inner ∈ frame, inner.Bounded := by
  unfold delimiterText
  split
  · exact yields_pure (by simp)
  · refine (TextRun.bounded_layout sound styles written size_nonneg span false).bind ?_
    exact fun frame bounded => yields_pure (by simpa using bounded)

theorem bounded_delimitedGrid (sound : ∀ face ∈ faces, face.Sound) (sized : 0 ≤ styles.textSize)
    (centered : Bool) (opening closing : String) {cells : List (List (Frame Rat))}
    (bounded : ∀ row ∈ cells, ∀ cell ∈ row, cell.Bounded) :
    (delimitedGrid faces styles centered opening closing span cells).Yields fun piece =>
      piece.frame.Bounded := by
  unfold delimitedGrid
  refine (sound_primaryFace sound).bind fun face measures => ?_
  extract_lets body size
  have size_nonneg : 0 ≤ size := Compose.delimiterSize_nonneg sized face body
  refine (bounded_delimiterText sound size_nonneg opening).bind fun before before_bounded => ?_
  refine (bounded_delimiterText sound size_nonneg closing).bind fun after after_bounded => ?_
  have body_bounded : body.Bounded := Compose.bounded_grid sized measures centered bounded
  exact yields_pure
    (Compose.bounded_surround face styles size body_bounded before_bounded after_bounded)

/-- Whether an element is laid out in a bounded frame, and in bounded pieces as part of a row. -/
structure Bounds (faces : List (FontFace Rat)) (content : Content) : Prop where
  alone : ∀ levels styles, 0 ≤ styles.textSize →
    (element faces levels styles content).Yields fun piece => piece.frame.Bounded
  members : ∀ levels styles children span, 0 ≤ styles.textSize →
    content = .sequence children span →
      (pieces faces levels styles children).Yields fun pieces =>
        ∀ piece ∈ pieces, piece.frame.Bounded

theorem bounded_pieces (sized : 0 ≤ styles.textSize) {children : List Content}
    (bounds : ∀ child ∈ children, Bounds faces child) :
    (pieces faces levels styles children).Yields fun pieces =>
      ∀ piece ∈ pieces, piece.frame.Bounded := by
  induction children with
  | nil =>
      rw [pieces]
      exact yields_pure (by simp)
  | cons child rest induction =>
      obtain ⟨here, later⟩ := List.forall_mem_cons.mp bounds
      unfold pieces
      split
      · exact yields_pure (by simp)
      · rename_i children span rest same
        obtain ⟨rfl, rfl⟩ := List.cons.inj same
        refine (here.members levels styles children span sized rfl).bind fun first bounded => ?_
        refine (induction later).bind fun others others_bounded => yields_pure ?_
        exact List.forall_mem_append.mpr ⟨bounded, others_bounded⟩
      · rename_i span rest same
        obtain ⟨rfl, rfl⟩ := List.cons.inj same
        exact induction later
      · rename_i span rest same
        obtain ⟨rfl, rfl⟩ := List.cons.inj same
        exact induction later
      · rename_i child rest _ _ _ same
        obtain ⟨rfl, rfl⟩ := List.cons.inj same
        refine (here.alone levels styles sized).bind fun first bounded => ?_
        refine (induction later).bind fun others others_bounded => yields_pure ?_
        exact List.forall_mem_cons.mpr ⟨bounded, others_bounded⟩

theorem bounded_cells (sized : 0 ≤ styles.textSize) {children : List Content}
    (bounds : ∀ child ∈ children, Bounds faces child) :
    (cells faces levels styles children).Yields fun cells => ∀ cell ∈ cells, cell.Bounded := by
  induction children with
  | nil =>
      rw [cells]
      exact yields_pure (by simp)
  | cons child rest induction =>
      obtain ⟨here, later⟩ := List.forall_mem_cons.mp bounds
      rw [cells]
      refine (here.alone levels styles sized).bind fun first bounded => ?_
      refine (induction later).bind fun others others_bounded => yields_pure ?_
      exact List.forall_mem_cons.mpr ⟨bounded, others_bounded⟩

theorem bounded_cellRows (sized : 0 ≤ styles.textSize) {rows : List (List Content)}
    (bounds : ∀ row ∈ rows, ∀ child ∈ row, Bounds faces child) :
    (cellRows faces levels styles rows).Yields fun rows =>
      ∀ row ∈ rows, ∀ cell ∈ row, cell.Bounded := by
  induction rows with
  | nil =>
      rw [cellRows]
      exact yields_pure (by simp)
  | cons row rest induction =>
      obtain ⟨here, later⟩ := List.forall_mem_cons.mp bounds
      rw [cellRows]
      refine (bounded_cells sized here).bind fun first bounded => ?_
      refine (induction later).bind fun others others_bounded => yields_pure ?_
      exact List.forall_mem_cons.mpr ⟨bounded, others_bounded⟩

theorem bounded_optional (sized : 0 ≤ styles.textSize) {content : Option Content}
    (bounds : ∀ child ∈ content.toList, Bounds faces child) :
    (optional faces levels styles content).Yields fun frame =>
      ∀ inner ∈ frame, inner.Bounded := by
  cases content with
  | none =>
      rw [optional]
      exact yields_pure (by simp)
  | some child =>
      rw [optional]
      refine ((bounds child (by simp)).alone levels styles sized).bind fun piece bounded => ?_
      exact yields_pure (by simpa using bounded)

theorem bounded_delimiter (sound : ∀ face ∈ faces, face.Sound) (sized : 0 ≤ styles.textSize)
    {size : Rat} (size_nonneg : 0 ≤ size) {content : Option Content}
    (bounds : ∀ child ∈ content.toList, Bounds faces child) :
    (delimiter faces levels styles size content).Yields fun frame =>
      ∀ inner ∈ frame, inner.Bounded := by
  unfold delimiter
  split
  · exact yields_pure (by simp)
  · refine (TextRun.bounded_layout sound styles _ size_nonneg _ false).bind ?_
    exact fun frame bounded => yields_pure (by simpa using bounded)
  · refine ((bounds _ (by simp)).alone levels styles sized).bind fun piece bounded => ?_
    exact yields_pure (by simpa using bounded)

theorem bounded_attach (sized : 0 ≤ styles.textSize) {base : Content}
    {top bottom marks : Option Content}
    (bounds : ∀ inner ∈ (Content.attach base top bottom marks span).inner, Bounds faces inner) :
    (element faces (levels + 1) styles (.attach base top bottom marks span)).Yields fun piece =>
      piece.frame.Bounded := by
  have base_bounds := bounds base (by simp [Content.inner])
  have top_bounds : ∀ child ∈ top.toList, Bounds faces child :=
    fun child member => bounds child (by simp [Content.inner, Option.mem_toList.mp member])
  have bottom_bounds : ∀ child ∈ bottom.toList, Bounds faces child :=
    fun child member => bounds child (by simp [Content.inner, Option.mem_toList.mp member])
  have marks_bounds : ∀ child ∈ marks.toList, Bounds faces child :=
    fun child member => bounds child (by simp [Content.inner, Option.mem_toList.mp member])
  have script_sized : 0 ≤ { styles with mathSize := styles.mathSize.ofScript }.textSize := sized
  rw [element]
  refine (base_bounds.alone levels styles sized).bind fun piece base_bounded => ?_
  refine (bounded_optional script_sized top_bounds).bind fun above top_bounded => ?_
  refine (bounded_optional script_sized bottom_bounds).bind fun below bottom_bounded => ?_
  refine (bounded_optional sized marks_bounds).bind fun primes primes_bounded => ?_
  split
  · exact yields_pure
      (Compose.bounded_limits base_bounded top_bounded bottom_bounded primes_bounded)
  · have placed (rule : Rat) :=
      Compose.bounded_scripts sized rule base_bounded top_bounded bottom_bounded primes_bounded
    have any (rule : Layouting Rat) : rule.Yields fun _ => True := fun _ _ => trivial
    dsimp only
    split <;> exact (any _).bind fun rule _ => yields_pure (placed rule)

theorem bounded_root (sound : ∀ face ∈ faces, face.Sound) (sized : 0 ≤ styles.textSize)
    {index : Option Content} {radicand : Content}
    (bounds : ∀ inner ∈ (Content.root index radicand span).inner, Bounds faces inner) :
    (element faces (levels + 1) styles (.root index radicand span)).Yields fun piece =>
      piece.frame.Bounded := by
  have size_nonneg := Styles.fontSize_nonneg sized
  have radicand_bounds := bounds radicand (by simp [Content.inner])
  have index_bounds : ∀ child ∈ index.toList, Bounds faces child :=
    fun child member => bounds child (by simp [Content.inner, Option.mem_toList.mp member])
  rw [element]
  refine (radicand_bounds.alone levels styles sized).bind fun piece radicand_bounded => ?_
  refine (sound_primaryFace sound).bind fun face measures => ?_
  have sign_nonneg : 0 ≤ Compose.rootSize face styles piece.frame :=
    size_nonneg.trans (Compose.fontSize_le_rootSize face styles piece.frame)
  refine (TextRun.bounded_layout sound styles _ sign_nonneg _ false).bind
    fun sign sign_bounded => ?_
  have index_sized : 0 ≤ Styles.textSize { styles with mathSize := .scriptScript } := sized
  refine (bounded_optional index_sized index_bounds).bind fun degree degree_bounded => ?_
  exact yields_pure
    (Compose.bounded_root sized measures sign_bounded radicand_bounded degree_bounded)

theorem bounded_lr (sound : ∀ face ∈ faces, face.Sound) (sized : 0 ≤ styles.textSize)
    {opening closing : Option Content} {body : Content}
    (bounds : ∀ inner ∈ (Content.lr opening body closing span).inner, Bounds faces inner) :
    (element faces (levels + 1) styles (.lr opening body closing span)).Yields fun piece =>
      piece.frame.Bounded := by
  have body_bounds := bounds body (by simp [Content.inner])
  have opening_bounds : ∀ child ∈ opening.toList, Bounds faces child :=
    fun child member => bounds child (by simp [Content.inner, Option.mem_toList.mp member])
  have closing_bounds : ∀ child ∈ closing.toList, Bounds faces child :=
    fun child member => bounds child (by simp [Content.inner, Option.mem_toList.mp member])
  rw [element]
  refine (body_bounds.alone levels styles sized).bind fun piece body_bounded => ?_
  refine (sound_primaryFace sound).bind fun face _ => ?_
  have size_nonneg := Compose.delimiterSize_nonneg sized face piece.frame
  refine (bounded_delimiter sound sized size_nonneg opening_bounds).bind fun before bounded => ?_
  refine (bounded_delimiter sound sized size_nonneg closing_bounds).bind fun after bounded' => ?_
  exact yields_pure (Compose.bounded_surround face styles _ body_bounded bounded bounded')

theorem bounded_element (sound : ∀ face ∈ faces, face.Sound) {content : Content}
    (below : ∀ inner ∈ content.inner, Bounds faces inner) (sized : 0 ≤ styles.textSize)
    (levels : Nat) :
    (element faces levels styles content).Yields fun piece => piece.frame.Bounded := by
  have size_nonneg := Styles.fontSize_nonneg sized
  cases levels with
  | zero =>
      unfold element
      exact yields_stop _
  | succ levels =>
      cases content with
      | bare =>
          rw [element]
          exact yields_stop _
      | sequence =>
          rw [element]
          exact (bounded_pieces sized below).bind fun set bounded =>
            yields_pure (Compose.bounded_row sized bounded)
      | text =>
          rw [element]
          exact bounded_text sound sized _ _ _
      | op | primes =>
          rw [element]
          exact (TextRun.bounded_layout sound styles _ size_nonneg _ false).bind
            fun frame bounded => yields_pure bounded
      | frac num denom =>
          have inner_sized : 0 ≤ { styles with mathSize := styles.mathSize.ofFraction }.textSize :=
            sized
          rw [element]
          refine ((below num (by simp [Content.inner])).alone _ _ inner_sized).bind
            fun above above_bounded => ?_
          refine ((below denom (by simp [Content.inner])).alone _ _ inner_sized).bind
            fun under under_bounded => ?_
          refine (sound_primaryFace sound).bind fun face measures => ?_
          exact yields_pure (Compose.bounded_fraction sized measures above_bounded under_bounded)
      | attach => exact bounded_attach sized below
      | root => exact bounded_root sound sized below
      | lr => exact bounded_lr sound sized below
      | alignPoint | linebreak =>
          rw [element]
          exact yields_pure Frame.bounded_empty
      | vec | cases =>
          rw [element]
          refine (bounded_cells sized below).bind fun set bounded => ?_
          apply bounded_delimitedGrid sound sized
          simpa using bounded
      | mat rows =>
          rw [element]
          refine (bounded_cellRows sized ?_).bind fun set bounded =>
            bounded_delimitedGrid sound sized _ _ _ bounded
          exact List.forall_mem_flatten.mp below
      | binom upper lower =>
          rw [element]
          refine ((below upper (by simp [Content.inner])).alone _ _ sized).bind
            fun above above_bounded => ?_
          refine ((below lower (by simp [Content.inner])).alone _ _ sized).bind
            fun under under_bounded => ?_
          apply bounded_delimitedGrid sound sized
          simp [above_bounded, under_bounded]
      | overline body | underline body =>
          rw [element]
          refine ((below body (by simp [Content.inner])).alone _ _ sized).bind
            fun piece bounded => ?_
          refine (sound_primaryFace sound).bind fun face measures => yields_pure ?_
          dsimp only
          exact Compose.bounded_line sized measures _ bounded
      | upright body | equation body =>
          rw [element]
          exact (below body (by simp [Content.inner])).alone _ _ sized

theorem bounds_content (sound : ∀ face ∈ faces, face.Sound) (content : Content) :
    Bounds faces content := by
  induction content using Content.induction with
  | step content induction =>
      constructor
      · intro levels styles sized
        exact bounded_element sound induction sized levels
      · rintro levels styles children span sized rfl
        exact bounded_pieces sized induction

theorem bounded_segments (sound : ∀ face ∈ faces, face.Sound) (sized : 0 ≤ styles.textSize)
    (line : List (List Content)) :
    (segments faces styles line).Yields fun frames => ∀ frame ∈ frames, frame.Bounded := by
  induction line with
  | nil =>
      rw [segments]
      exact yields_pure (by simp)
  | cons segment rest induction =>
      rw [segments]
      refine (bounded_pieces sized fun child _ => bounds_content sound child).bind
        fun set bounded => ?_
      refine induction.bind fun others others_bounded => yields_pure ?_
      exact List.forall_mem_cons.mpr ⟨Compose.bounded_row sized bounded, others_bounded⟩

theorem bounded_lines (sound : ∀ face ∈ faces, face.Sound) (sized : 0 ≤ styles.textSize)
    (divided : List (List (List Content))) :
    (lines faces styles divided).Yields fun rows =>
      ∀ row ∈ rows, ∀ frame ∈ row, frame.Bounded := by
  induction divided with
  | nil =>
      rw [lines]
      exact yields_pure (by simp)
  | cons line rest induction =>
      rw [lines]
      refine (bounded_segments sound sized line).bind fun first bounded => ?_
      refine induction.bind fun others others_bounded => yields_pure ?_
      exact List.forall_mem_cons.mpr ⟨bounded, others_bounded⟩

theorem bounded_block {body : Content} {region : Region Rat} {frame : Frame Rat}
    (sized : 0 ≤ styles.textSize) (made : block body span styles region = .ok frame) :
    frame.Bounded := by
  unfold block at made
  split at made
  · cases made
  · rename_i faces _
    have sound :
        ∀ face ∈ FontFace.select FontFace.catalog styles.families styles.weight, face.Sound :=
      fun face member => FontFace.sound_catalog face (FontFace.mem_of_mem_select member)
    have laid : (equation (FontFace.select FontFace.catalog styles.families styles.weight) styles
        body span).Yields Frame.Bounded := by
      unfold equation
      exact (bounded_lines sound sized _).bind fun lines bounded =>
        yields_pure (Compose.bounded_equation sized bounded)
    dsimp only at made
    split at made
    · rename_i inner given
      split at made
      · cases made
        exact Compose.bounded_fill region (laid inner given)
      · cases made
    · cases made
    · cases made

end Layout

/-! What is bounded, seen from its own corner and from that of the frame around it. -/

theorem Fragment.inside_ofItems (resolver : Resolver) {items : List (Item Rat)}
    {offset : Point Rat} {inner outer : Size Rat} (fits : inner.Fits offset outer)
    (within : ∀ item ∈ items, item.Within inner) :
    ∀ fragment ∈ ofItems resolver offset items, fragment.box.Inside outer := by
  fun_induction ofItems resolver offset items generalizing inner with
  | case1 offset => simp
  | case2 offset position size baseline items rest inside induction =>
      obtain ⟨here, later⟩ := List.forall_mem_cons.mp within
      cases here with
      | group group_fits items_within =>
          exact List.forall_mem_append.mpr
            ⟨inside (group_fits.trans fits) items_within, induction fits later⟩
  | case3 offset position run rest range found induction =>
      obtain ⟨here, later⟩ := List.forall_mem_cons.mp within
      cases here with
      | text inside =>
          exact List.forall_mem_cons.mpr ⟨fits.inside_boxAt inside, induction fits later⟩
  | case4 offset position run rest unknown induction =>
      exact induction fits (List.forall_mem_cons.mp within).2
  | case5 offset position drawn span rest range found induction =>
      obtain ⟨here, later⟩ := List.forall_mem_cons.mp within
      cases here with
      | shape inside =>
          exact List.forall_mem_cons.mpr ⟨fits.inside_boxAt inside, induction fits later⟩
  | case6 offset position drawn span rest unknown induction =>
      exact induction fits (List.forall_mem_cons.mp within).2
  | case7 offset position kind span rest induction =>
      exact induction fits (List.forall_mem_cons.mp within).2

mutual

def Item.frames {α : Type} [Length α] : Item α → List (Frame α)
  | .group _ size baseline items => ⟨size, baseline, items⟩ :: Item.framesOfList items
  | .text _ _ | .shape _ _ _ | .tag _ _ _ => []

def Item.framesOfList {α : Type} [Length α] : List (Item α) → List (Frame α)
  | [] => []
  | item :: rest => item.frames ++ Item.framesOfList rest

end

/-- A frame, and all frames that are nested in it. -/
def Frame.nested {α : Type} [Length α] (frame : Frame α) : List (Frame α) :=
  frame :: Item.framesOfList frame.items

theorem Item.framesOfList_eq {α : Type} [Length α] (items : List (Item α)) :
    framesOfList items = items.flatMap frames := by
  induction items with
  | nil => rfl
  | cons item rest induction => rw [framesOfList, induction, List.flatMap_cons]

theorem Item.Within.frames {outer : Size Rat} {item : Item Rat} (within : item.Within outer) :
    ∀ frame ∈ item.frames, ∀ inner ∈ frame.items, inner.Within frame.size := by
  induction within with
  | group fits items_within induction =>
      rw [Item.frames, Item.framesOfList_eq]
      refine List.forall_mem_cons.mpr ⟨items_within, ?_⟩
      exact List.forall_mem_flatMap.mpr induction
  | text | shape | tag => simp [Item.frames]

/-- In exact arithmetic, whatever is typeset stays inside its frame, and what is in a nested frame
stays inside that. -/
theorem fragments_inside_of_typeset {text : String} {formula : Typeset Rat}
    (made : typeset text = .ok formula) :
    ∀ frame ∈ formula.frame.nested,
      ∀ fragment ∈ frame.fragments formula.source.resolver .origin,
        0 ≤ fragment.box.x0 ∧ fragment.box.x0 ≤ fragment.box.x1 ∧
          fragment.box.x1 ≤ frame.width ∧ 0 ≤ fragment.box.y0 ∧
          fragment.box.y0 ≤ fragment.box.y1 ∧ fragment.box.y1 ≤ frame.height := by
  obtain ⟨-, -, laid⟩ := exists_stages_of_typeset made
  have bounded : formula.frame.Bounded :=
    Layout.bounded_block (by norm_num [Styles.standard]) (Source.block_of_layout laid)
  have within : ∀ frame ∈ formula.frame.nested, ∀ item ∈ frame.items, item.Within frame.size := by
    refine List.forall_mem_cons.mpr ⟨bounded.items, ?_⟩
    rw [Item.framesOfList_eq]
    exact List.forall_mem_flatMap.mpr fun item member => (bounded.items item member).frames
  intro frame nested fragment member
  obtain ⟨left, across, right, top, down, bottom⟩ := Fragment.inside_ofItems _
    (Size.Fits.at_origin frame.size) (within frame nested) fragment member
  exact ⟨left, across, right, top, down, bottom⟩

/-- A sum with limits, a root with an index and a fraction of scripts, in two lines. -/
theorem fragments_inside_of_lines :
    ∃ formula : Typeset Rat,
      typeset "sum_(i=1)^n root(3, x) &= 1/2^i \\ &< vec(a', b)" = .ok formula ∧
      formula.frame.nested.length = 12 ∧
      ∀ frame ∈ formula.frame.nested,
        ∀ fragment ∈ frame.fragments formula.source.resolver .origin,
          0 ≤ fragment.box.x0 ∧ fragment.box.x0 ≤ fragment.box.x1 ∧
            fragment.box.x1 ≤ frame.width ∧ 0 ≤ fragment.box.y0 ∧
            fragment.box.y0 ≤ fragment.box.y1 ∧ fragment.box.y1 ≤ frame.height := by
  have evaluated :
      ((typeset "sum_(i=1)^n root(3, x) &= 1/2^i \\ &< vec(a', b)" :
        Except Failure (Typeset Rat)).toOption.any
          fun formula => formula.frame.nested.length = 12) = true := by
    decide +kernel
  cases made : (typeset "sum_(i=1)^n root(3, x) &= 1/2^i \\ &< vec(a', b)" :
      Except Failure (Typeset Rat)) with
  | error failure =>
      rw [made] at evaluated
      cases evaluated
  | ok formula =>
      rw [made] at evaluated
      exact ⟨formula, rfl, of_decide_eq_true evaluated, fragments_inside_of_typeset made⟩

end EquationMap
