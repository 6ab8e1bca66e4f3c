import EquationMap.Proofs.Layout.Settling
import Mathlib.Tactic.Abel

namespace EquationMap

variable {α : Type} [Length α] {faces : List (FontFace α)}

namespace Content

def shown (faces : List (FontFace α)) (content : Content) : Multiset Drawn :=
  (content.texts.map fun text => FontFace.set faces text content.span).sum + content.rule

def display (faces : List (FontFace α)) (content : Content) : Multiset Drawn :=
  (content.elements.map (shown faces)).sum

theorem display_eq (faces : List (FontFace α)) (content : Content) :
    content.display faces = content.shown faces + (content.inner.map (display faces)).sum := by
  rw [display, elements_eq, List.map_cons, List.sum_cons, List.map_flatMap, List.flatMap_def,
    List.sum_flatten, List.map_map]
  rfl

theorem display_of_isBreak (faces : List (FontFace α)) {content : Content}
    (isBreak : content.isBreak = true) : content.display faces = 0 := by
  rw [display_eq]
  cases content <;> cases isBreak <;> simp [shown, rule, isRuled, texts, inner]

theorem covered_iff {content : Content} :
    content.Covered faces ↔
      (∀ text ∈ content.texts, FontFace.coverText faces text = true) ∧
        ∀ inner ∈ content.inner, inner.Covered faces :=
  forall_elements_iff

theorem covered_of_isBreak (faces : List (FontFace α)) {content : Content}
    (isBreak : content.isBreak = true) : content.Covered faces := by
  rw [covered_iff]
  cases content <;> cases isBreak <;> simp [texts, inner]

theorem Plain.inner {content inner : Content} (plain : content.Plain)
    (member : inner ∈ content.inner) : inner.Plain :=
  (forall_elements_iff.mp plain).2 inner member

theorem rowMembers_sequence (children rest : List Content) (span : Span) :
    rowMembers (sequence children span :: rest) = rowMembers children ++ rowMembers rest := by
  simp [rowMembers, Layout.flatten, Layout.flattenOne]

end Content

namespace Layout

open Content

variable {styles : Styles α} {span : Span} {sound : Prop}

theorem settles_primaryFace (some_face : sound → faces ≠ []) :
    Settles sound True True (fun _ => True) (primaryFace faces) := by
  unfold primaryFace
  split
  · exact fun isSound => absurd rfl (some_face isSound)
  · exact .pure trivial

theorem settles_text (some_face : sound → faces ≠ []) (written : String) (upright limits : Bool) :
    Settles sound True (FontFace.coverText faces written = true)
      (fun piece => Draws styles.fill (FontFace.set faces written span) piece.frame.figures)
      (text faces styles written upright limits span) := by
  unfold text
  refine (TextRun.settles_layout ..).followed ?_
  intro frame draws
  split
  · refine (settles_primaryFace some_face).preceded ?_
    intro face _
    refine .pure ?_
    simpa using draws
  · exact .pure draws

theorem settles_delimiterText (size : α) (written : String) :
    Settles sound True (FontFace.coverText faces written = true)
      (fun found => Draws styles.fill (FontFace.set faces written span)
        (found.toList.flatMap Frame.figures))
      (delimiterText faces styles size written span) := by
  unfold delimiterText
  split
  · rename_i empty
    rw [String.isEmpty_iff.mp empty]
    have covered : FontFace.coverText faces "" = true := rfl
    exact (Settles.pure Draws.nothing).congr Iff.rfl (iff_of_true trivial covered) fun _ => id
  · refine (TextRun.settles_layout ..).followed ?_
    intro frame draws
    refine .pure ?_
    simpa using draws

theorem settles_delimitedGrid (some_face : sound → faces ≠ []) {things : Multiset Drawn}
    {cells : List (List (Frame α))} (centered : Bool) (opening closing : String)
    (draws : Draws styles.fill things (cells.flatMap fun row => row.flatMap Frame.figures)) :
    Settles sound True
      (FontFace.coverText faces opening = true ∧ FontFace.coverText faces closing = true)
      (fun piece => Draws styles.fill
        (FontFace.set faces opening span + things + FontFace.set faces closing span)
        piece.frame.figures)
      (delimitedGrid faces styles centered opening closing span cells) := by
  unfold delimitedGrid
  refine (settles_primaryFace some_face).preceded ?_
  intro face _
  refine Settles.congr (.bind (settles_delimiterText ..) ?_) (and_iff_left trivial) Iff.rfl
    fun _ => id
  intro before before_draws
  refine (settles_delimiterText ..).followed ?_
  intro after after_draws
  refine .pure ?_
  rw [Compose.figures_surround, Compose.figures_grid]
  exact (before_draws.append draws).append after_draws

def SetsAlone (sound : Prop) (levels : Nat) (styles : Styles α) (faces : List (FontFace α))
    (content : Content) (layout : Layouting (Piece α)) : Prop :=
  Settles sound (content.Fits levels) (content.Covered faces)
    (fun piece => Draws styles.fill (content.display faces) piece.frame.figures) layout

theorem sets_at_no_levels (content : Content) :
    SetsAlone sound 0 styles faces content (element faces 0 styles content) := by
  unfold element
  exact fun _ => ⟨id, content.span, rfl⟩

def SetsRow (sound : Prop) (levels : Nat) (styles : Styles α) (faces : List (FontFace α))
    (contents : List Content) (layout : Layouting (List (Piece α))) : Prop :=
  Settles sound (∀ member ∈ rowMembers contents, member.Fits levels)
    (∀ content ∈ contents, content.Covered faces)
    (fun set => Draws styles.fill (contents.map (display faces)).sum
      (set.flatMap fun piece => piece.frame.figures)) layout

/-- The layout of an element, alone and as the row that it is if it is a sequence. -/
structure Laid (sound : Prop) (faces : List (FontFace α)) (content : Content) : Prop where
  alone : ∀ levels styles,
    SetsAlone sound levels styles faces content (element faces levels styles content)
  inRow : ∀ levels styles children span, content = .sequence children span →
    SetsRow sound levels styles faces children (pieces faces levels styles children)

namespace SetsRow

variable {levels : Nat} {contents : List Content} {layout : Layouting (List (Piece α))}

theorem cons {content : Content} (laid : Laid sound faces content)
    (row : SetsRow sound levels styles faces contents layout)
    (member : rowMembers (content :: contents) = content :: rowMembers contents) :
    SetsRow sound levels styles faces (content :: contents) (do
      let first ← element faces levels styles content
      return first :: (← layout)) := by
  unfold SetsRow
  rw [member]
  refine Settles.congr (.bind (laid.alone levels styles) ?_) List.forall_mem_cons.symm
    List.forall_mem_cons.symm fun _ => id
  intro first first_draws
  refine row.followed ?_
  intro others draws
  exact .pure (first_draws.append draws)

theorem sequence {children : List Content}
    (first : SetsRow sound levels styles faces children (pieces faces levels styles children))
    (row : SetsRow sound levels styles faces contents layout) :
    SetsRow sound levels styles faces (.sequence children span :: contents) (do
      let first ← pieces faces levels styles children
      return first ++ (← layout)) := by
  have covered : ((∀ child ∈ children, child.Covered faces) ∧
      ∀ content ∈ contents, content.Covered faces) ↔
        ∀ content ∈ Content.sequence children span :: contents, content.Covered faces := by
    rw [List.forall_mem_cons, covered_iff]
    simp [texts, Content.inner]
  have display : (Content.sequence children span).display faces =
      (children.map (display faces)).sum := by
    rw [display_eq]
    simp [shown, rule, isRuled, texts, Content.inner]
  unfold SetsRow
  rw [rowMembers_sequence]
  refine Settles.congr (.bind first ?_) List.forall_mem_append.symm covered fun _ => id
  intro inside inside_draws
  refine row.followed ?_
  intro others draws
  refine .pure ?_
  rw [List.map_cons, List.sum_cons, display, List.flatMap_append]
  exact inside_draws.append draws

theorem skip {content : Content} (isBreak : content.isBreak = true)
    (row : SetsRow sound levels styles faces contents layout) :
    SetsRow sound levels styles faces (content :: contents) layout := by
  have members : rowMembers (content :: contents) = rowMembers contents := by
    cases content <;> cases isBreak <;> rfl
  unfold SetsRow
  rw [members, List.map_cons, List.sum_cons, display_of_isBreak faces isBreak, zero_add]
  exact Settles.congr row Iff.rfl (by simp [covered_of_isBreak faces isBreak]) fun _ => id

end SetsRow

theorem setsRow_pieces {levels : Nat} {contents : List Content}
    (laid : ∀ content ∈ contents, Laid sound faces content) :
    SetsRow sound levels styles faces contents (pieces faces levels styles contents) := by
  induction contents with
  | nil =>
      rw [pieces]
      exact (Settles.pure Draws.nothing).congr (by simp [rowMembers, flatten]) (by simp) fun _ => id
  | cons content contents induction =>
      obtain ⟨here, later⟩ := List.forall_mem_cons.mp laid
      have row := induction later
      cases content with
      | sequence children span =>
          rw [pieces]
          exact .sequence (here.inRow levels styles children span rfl) row
      | alignPoint span =>
          rw [pieces]
          exact row.skip rfl
      | linebreak span =>
          rw [pieces]
          exact row.skip rfl
      | _ =>
          rw [pieces]
          · exact .cons here row rfl
          all_goals simp

theorem settles_cells {levels : Nat} {children : List Content}
    (laid : ∀ child ∈ children, Laid sound faces child) :
    Settles sound (∀ child ∈ children, child.Fits levels)
      (∀ child ∈ children, child.Covered faces)
      (fun set => Draws styles.fill (children.map (display faces)).sum
        (set.flatMap Frame.figures))
      (cells faces levels styles children) := by
  induction children with
  | nil =>
      rw [cells]
      exact (Settles.pure Draws.nothing).congr (by simp) (by simp) fun _ => id
  | cons child rest induction =>
      obtain ⟨here, later⟩ := List.forall_mem_cons.mp laid
      rw [cells]
      refine Settles.congr (.bind (here.alone levels styles) ?_) List.forall_mem_cons.symm
        List.forall_mem_cons.symm fun _ => id
      intro first first_draws
      refine (induction later).followed ?_
      intro others draws
      exact .pure (first_draws.append draws)

theorem settles_cellRows {levels : Nat} {rows : List (List Content)}
    (laid : ∀ row ∈ rows, ∀ child ∈ row, Laid sound faces child) :
    Settles sound (∀ row ∈ rows, ∀ child ∈ row, child.Fits levels)
      (∀ row ∈ rows, ∀ child ∈ row, child.Covered faces)
      (fun set => Draws styles.fill (rows.flatten.map (display faces)).sum
        (set.flatMap fun row => row.flatMap Frame.figures))
      (cellRows faces levels styles rows) := by
  induction rows with
  | nil =>
      rw [cellRows]
      exact (Settles.pure Draws.nothing).congr (by simp) (by simp) fun _ => id
  | cons row rest induction =>
      obtain ⟨here, later⟩ := List.forall_mem_cons.mp laid
      rw [cellRows]
      refine Settles.congr (.bind (settles_cells here) ?_) (by rw [List.forall_mem_cons])
        (by rw [List.forall_mem_cons]) fun _ => id
      intro first first_draws
      refine (induction later).followed ?_
      intro others draws
      refine .pure ?_
      rw [List.flatten_cons, List.map_append, List.sum_append]
      exact first_draws.append draws

theorem settles_optional {levels : Nat} {content : Option Content}
    (laid : ∀ child ∈ content.toList, Laid sound faces child) :
    Settles sound (∀ child ∈ content.toList, child.Fits levels)
      (∀ child ∈ content.toList, child.Covered faces)
      (fun found => Draws styles.fill (content.toList.map (display faces)).sum
        (found.toList.flatMap Frame.figures))
      (optional faces levels styles content) := by
  cases content with
  | none =>
      rw [optional]
      exact (Settles.pure Draws.nothing).congr (by simp) (by simp) fun _ => id
  | some content =>
      rw [optional]
      refine Settles.congr (((laid content (by simp)).alone levels styles).followed ?_)
        (by simp) (by simp) fun _ => id
      intro piece draws
      refine .pure ?_
      simpa using draws

theorem settles_delimiter {levels : Nat} {size : α} {content : Option Content}
    (laid : ∀ child ∈ content.toList, Laid sound faces child) :
    Settles sound
      (∀ child ∈ content.toList.filter fun delimiter => !delimiter.isText, child.Fits levels)
      (∀ child ∈ content.toList, child.Covered faces)
      (fun found => Draws styles.fill (content.toList.map (display faces)).sum
        (found.toList.flatMap Frame.figures))
      (delimiter faces levels styles size content) := by
  unfold delimiter
  split
  · exact (Settles.pure Draws.nothing).congr (by simp) (by simp) fun _ => id
  · rename_i written upright limits span
    have covered : (Content.text written upright limits span).Covered faces ↔
        FontFace.coverText faces written = true := by
      rw [covered_iff]
      simp [texts, Content.inner]
    have display : (Content.text written upright limits span).display faces =
        FontFace.set faces written span := by
      rw [display_eq]
      simp [shown, rule, isRuled, texts, Content.inner, Content.span]
    refine Settles.congr ((TextRun.settles_layout ..).followed ?_) (by simp [isText])
      (by simp [covered]) fun _ => id
    intro frame draws
    refine .pure ?_
    simpa [display] using draws
  · rename_i content notText
    have kept : content.isText = false := by
      cases content with
      | text written upright limits span => exact absurd rfl (notText written upright limits span)
      | _ => rfl
    refine Settles.congr (((laid content (by simp)).alone levels styles).followed ?_)
      (by simp [kept]) (by simp) fun _ => id
    intro piece draws
    refine .pure ?_
    simpa using draws

section

variable {levels : Nat}

theorem sets_frac (some_face : sound → faces ≠ []) {num denom : Content}
    (laid : ∀ inner ∈ (Content.frac num denom span).inner, Laid sound faces inner) :
    SetsAlone sound (levels + 1) styles faces (.frac num denom span)
      (element faces (levels + 1) styles (.frac num denom span)) := by
  have num_laid := laid num (by simp [Content.inner])
  have denom_laid := laid denom (by simp [Content.inner])
  rw [element]
  refine Settles.congr (.bind (num_laid.alone levels _) fun above above_draws =>
    .followed (denom_laid.alone levels _) ?_) ?_ (Iff.trans ?_ covered_iff.symm) fun _ => id
  · intro below below_draws
    refine (settles_primaryFace some_face).preceded ?_
    intro face _
    obtain ⟨shape, drawn⟩ :=
      Compose.figures_fraction face styles above.frame below.frame span
    refine .pure ?_
    rw [drawn]
    refine ((above_draws.append below_draws).append (.stroke shape span)).congr ?_
    rw [display_eq faces (.frac num denom span)]
    simp [shown, rule, isRuled, texts, Content.inner, Content.span, add_comm]
  · simp [Fits, underneath, Content.inner]
  · simp [texts, Content.inner]

theorem sets_attach (some_face : sound → faces ≠ []) {base : Content}
    {top bottom marks : Option Content}
    (laid : ∀ inner ∈ (Content.attach base top bottom marks span).inner,
      Laid sound faces inner) :
    SetsAlone sound (levels + 1) styles faces (.attach base top bottom marks span)
      (element faces (levels + 1) styles (.attach base top bottom marks span)) := by
  have base_laid := laid base (by simp [Content.inner])
  have top_laid : ∀ child ∈ top.toList, Laid sound faces child :=
    fun child member => laid child (by simp [Content.inner, Option.mem_toList.mp member])
  have bottom_laid : ∀ child ∈ bottom.toList, Laid sound faces child :=
    fun child member => laid child (by simp [Content.inner, Option.mem_toList.mp member])
  have marks_laid : ∀ child ∈ marks.toList, Laid sound faces child :=
    fun child member => laid child (by simp [Content.inner, Option.mem_toList.mp member])
  have display : base.display faces + (top.toList.map (display faces)).sum +
      (bottom.toList.map (display faces)).sum + (marks.toList.map (display faces)).sum =
        (Content.attach base top bottom marks span).display faces := by
    rw [display_eq faces (.attach base top bottom marks span)]
    simp [shown, rule, isRuled, texts, Content.inner, add_assoc]
  rw [element]
  refine Settles.congr (.bind (base_laid.alone levels styles) fun piece piece_draws =>
    .bind (settles_optional top_laid) fun above above_draws =>
    .bind (settles_optional bottom_laid) fun below below_draws =>
    .followed (settles_optional marks_laid) ?_) ?_ (Iff.trans ?_ covered_iff.symm) fun _ => id
  · intro primes primes_draws
    split
    · refine .pure ?_
      rw [Compose.figures_limits]
      exact (((piece_draws.append above_draws).append below_draws).append primes_draws).congr
        display
    · -- The gap between two scripts moves them, whatever it is.
      have scripted {measured : Layouting α}
          (measures : Settles sound True True (fun _ => True) measured) :
          Settles sound True True
            (fun piece => Draws styles.fill
              ((Content.attach base top bottom marks span).display faces) piece.frame.figures)
            (measured >>= fun rule =>
              pure ({ frame := Compose.scripts rule styles piece.frame above below primes
                      cls := piece.cls } : Piece α)) := by
        refine measures.preceded fun rule _ => .pure ?_
        rw [Compose.figures_scripts]
        refine (((piece_draws.append primes_draws).append above_draws).append below_draws).congr ?_
        rw [← display]
        abel
      dsimp only
      split
      · exact scripted ((settles_primaryFace some_face).preceded fun _ _ => .pure trivial)
      · exact scripted (.pure trivial)
  · simp only [Fits, underneath, Content.inner, List.cons_append, List.forall_mem_cons,
      List.forall_mem_append, and_assoc]
  · simp only [texts, Content.inner, List.cons_append, List.forall_mem_cons,
      List.forall_mem_append, and_assoc, List.not_mem_nil, false_imp_iff, implies_true, true_and]

theorem sets_root (some_face : sound → faces ≠ []) {index : Option Content} {radicand : Content}
    (laid : ∀ inner ∈ (Content.root index radicand span).inner, Laid sound faces inner) :
    SetsAlone sound (levels + 1) styles faces (.root index radicand span)
      (element faces (levels + 1) styles (.root index radicand span)) := by
  have radicand_laid := laid radicand (by simp [Content.inner])
  have index_laid : ∀ child ∈ index.toList, Laid sound faces child :=
    fun child member => laid child (by simp [Content.inner, Option.mem_toList.mp member])
  rw [element]
  refine Settles.congr (.bind (radicand_laid.alone levels styles) fun piece piece_draws =>
    .preceded (settles_primaryFace some_face) fun face _ =>
    .bind (TextRun.settles_layout ..) fun sign sign_draws =>
    .followed (settles_optional index_laid) ?_) ?_ (Iff.trans ?_ covered_iff.symm) fun _ => id
  · intro degree degree_draws
    obtain ⟨shape, drawn⟩ := Compose.figures_root face styles sign piece.frame degree span
    refine .pure ?_
    rw [drawn]
    refine (((degree_draws.append sign_draws).append piece_draws).append
      (.stroke shape span)).congr ?_
    rw [display_eq faces (.root index radicand span)]
    simp only [shown, rule, isRuled, texts, Content.inner, Content.span, List.map_append,
      List.sum_append, List.map_cons, List.map_nil, List.sum_cons, List.sum_nil, if_true]
    abel
  · simp only [Fits, underneath, Content.inner, List.forall_mem_append,
      List.forall_mem_singleton, true_and]
    exact and_comm
  · simp only [texts, Content.inner, List.forall_mem_append, List.forall_mem_singleton]
    exact and_comm.trans and_assoc

theorem sets_lr (some_face : sound → faces ≠ []) {opening closing : Option Content}
    {body : Content}
    (laid : ∀ inner ∈ (Content.lr opening body closing span).inner, Laid sound faces inner) :
    SetsAlone sound (levels + 1) styles faces (.lr opening body closing span)
      (element faces (levels + 1) styles (.lr opening body closing span)) := by
  have opening_laid : ∀ child ∈ opening.toList, Laid sound faces child :=
    fun child member => laid child (by simp [Content.inner, Option.mem_toList.mp member])
  have closing_laid : ∀ child ∈ closing.toList, Laid sound faces child :=
    fun child member => laid child (by simp [Content.inner, Option.mem_toList.mp member])
  have body_laid := laid body (by simp [Content.inner])
  rw [element]
  refine Settles.congr (.bind (body_laid.alone levels styles) fun piece piece_draws =>
    .preceded (settles_primaryFace some_face) fun face _ =>
    .bind (settles_delimiter opening_laid) fun before before_draws =>
    .followed (settles_delimiter closing_laid) ?_) ?_ (Iff.trans ?_ covered_iff.symm)
    fun _ => id
  · intro after after_draws
    refine .pure ?_
    rw [Compose.figures_surround]
    refine ((before_draws.append piece_draws).append after_draws).congr ?_
    rw [display_eq faces (.lr opening body closing span)]
    simp [shown, rule, isRuled, texts, Content.inner, add_assoc]
  · simp only [Fits, underneath, List.filter_append, List.forall_mem_cons,
      List.forall_mem_append]
  · simp only [texts, Content.inner, List.forall_mem_append, List.forall_mem_cons,
      List.not_mem_nil, false_imp_iff, implies_true, true_and]
    exact and_left_comm

theorem sets_grid (some_face : sound → faces ≠ []) {β : Type} {content : Content}
    {cells : Layouting β} {arrange : β → List (List (Frame α))} (centered : Bool)
    (opening closing : String)
    (settles : Settles sound (∀ inner ∈ content.inner, inner.Fits levels)
      (∀ inner ∈ content.inner, inner.Covered faces)
      (fun set => Draws styles.fill (content.inner.map (display faces)).sum
        ((arrange set).flatMap fun row => row.flatMap Frame.figures)) cells)
    (below : content.underneath = content.inner) (unruled : content.isRuled = false)
    (covered : (∀ text ∈ content.texts, FontFace.coverText faces text = true) ↔
      FontFace.coverText faces opening = true ∧ FontFace.coverText faces closing = true)
    (delimiters : (content.texts.map fun text => FontFace.set faces text content.span).sum =
      FontFace.set faces opening content.span + FontFace.set faces closing content.span) :
    SetsAlone sound (levels + 1) styles faces content (cells >>= fun set =>
      delimitedGrid faces styles centered opening closing content.span (arrange set)) := by
  refine Settles.congr (.bind settles fun set draws =>
    settles_delimitedGrid some_face centered opening closing draws) ?_ ?_ ?_
  · rw [Fits, below]
    exact and_iff_left trivial
  · rw [covered_iff, covered]
    exact and_comm
  · intro piece draws
    refine draws.congr ?_
    rw [display_eq faces content, shown, delimiters, rule, unruled]
    simp only [Bool.false_eq_true, if_false]
    abel

theorem sets_line (some_face : sound → faces ≠ []) {content body : Content} (above : Bool)
    (body_laid : Laid sound faces body) (inner : content.inner = [body])
    (below : content.underneath = [body]) (ruled : content.isRuled = true)
    (textless : content.texts = []) :
    SetsAlone sound (levels + 1) styles faces content (do
      let body ← element faces levels styles body
      return { frame := Compose.line (← primaryFace faces) styles above body.frame
                 content.span }) := by
  refine Settles.congr (.followed (body_laid.alone levels styles) ?_) ?_
    (Iff.trans ?_ covered_iff.symm) fun _ => id
  · intro piece draws
    refine (settles_primaryFace some_face).preceded ?_
    intro face _
    obtain ⟨shape, drawn⟩ :=
      Compose.figures_line face styles above piece.frame content.span
    refine .pure ((((Draws.stroke shape content.span).append draws).perm drawn).congr ?_)
    simp [display_eq faces content, shown, rule, ruled, textless, inner]
  · simp [Fits, below]
  · simp [textless, inner]

theorem sets_body {content body : Content} {inner : Styles α} (body_laid : Laid sound faces body)
    (same_fill : inner.fill = styles.fill) (only : content.inner = [body])
    (below : content.underneath = [body]) (unruled : content.isRuled = false)
    (textless : content.texts = []) :
    SetsAlone sound (levels + 1) styles faces content (element faces levels inner body) := by
  refine Settles.congr (body_laid.alone levels inner) ?_ (Iff.trans ?_ covered_iff.symm) ?_
  · simp [Fits, below]
  · simp [textless, only]
  · intro piece draws
    rw [same_fill] at draws
    refine draws.congr ?_
    simp [display_eq faces content, shown, rule, unruled, textless, only]

end

theorem sets_text {levels : Nat} {content : Content} {written : String}
    {layout : Layouting (Piece α)}
    (settles : Settles sound True (FontFace.coverText faces written = true)
      (fun piece => Draws styles.fill (FontFace.set faces written content.span)
        piece.frame.figures) layout)
    (alone : content.inner = []) (below : content.underneath = [])
    (unruled : content.isRuled = false) (only : content.texts = [written]) :
    SetsAlone sound (levels + 1) styles faces content layout := by
  refine Settles.congr settles ?_ (Iff.trans ?_ covered_iff.symm) ?_
  · simp [Fits, below]
  · simp [only, alone]
  · intro piece draws
    refine draws.congr ?_
    simp [display_eq faces content, shown, rule, unruled, only, alone]

theorem sets_sequence {levels : Nat} {children : List Content}
    (laid : ∀ child ∈ children, Laid sound faces child) :
    SetsAlone sound (levels + 1) styles faces (.sequence children span)
      (element faces (levels + 1) styles (.sequence children span)) := by
  rw [element]
  refine Settles.congr ((setsRow_pieces laid).followed ?_) Iff.rfl
    (Iff.trans ?_ covered_iff.symm) fun _ => id
  · intro set draws
    refine .pure ?_
    rw [Compose.figures_row]
    refine draws.congr ?_
    simp [display_eq faces (.sequence children span), shown, rule, isRuled, texts, Content.inner]
  · simp [texts, Content.inner]

theorem sets_break {levels : Nat} {content : Content} (isBreak : content.isBreak = true) :
    SetsAlone sound (levels + 1) styles faces content (pure { frame := .empty }) := by
  refine Settles.congr (Settles.pure ?_) ?_ (Iff.trans ?_ covered_iff.symm) fun _ => id
  · exact Draws.nothing.congr (display_of_isBreak faces isBreak).symm
  · cases content <;> cases isBreak <;> simp [Fits, underneath, Content.inner]
  · cases content <;> cases isBreak <;> simp [texts, Content.inner]

theorem sets_binom {levels : Nat} (some_face : sound → faces ≠ []) {upper lower : Content}
    (laid : ∀ inner ∈ (Content.binom upper lower span).inner, Laid sound faces inner) :
    SetsAlone sound (levels + 1) styles faces (.binom upper lower span)
      (element faces (levels + 1) styles (.binom upper lower span)) := by
  have upper_laid := laid upper (by simp [Content.inner])
  have lower_laid := laid lower (by simp [Content.inner])
  have pair {above below : Piece α}
      (above_draws : Draws styles.fill (upper.display faces) above.frame.figures)
      (below_draws : Draws styles.fill (lower.display faces) below.frame.figures) :
      Draws styles.fill (upper.display faces + lower.display faces)
        ([[above.frame], [below.frame]].flatMap fun row => row.flatMap Frame.figures) :=
    (above_draws.append below_draws).perm (.of_eq (by simp))
  rw [element]
  refine Settles.congr (.bind (upper_laid.alone levels styles) fun above above_draws =>
    .bind (lower_laid.alone levels styles) fun below below_draws =>
    settles_delimitedGrid some_face true "(" ")" (pair above_draws below_draws)) ?_
    (Iff.trans ?_ covered_iff.symm) ?_
  · simp [Fits, underneath, Content.inner]
  · simp only [texts, Content.inner, List.forall_mem_cons, List.not_mem_nil, false_imp_iff,
      implies_true, and_true]
    constructor
    · rintro ⟨above, below, delimiters⟩
      exact ⟨delimiters, above, below⟩
    · rintro ⟨delimiters, above, below⟩
      exact ⟨above, below, delimiters⟩
  · intro piece draws
    refine draws.congr ?_
    rw [display_eq faces (.binom upper lower span)]
    simp only [shown, rule, isRuled, texts, Content.inner, Content.span, List.map_cons,
      List.map_nil, List.sum_cons, List.sum_nil, Bool.false_eq_true, if_false]
    abel

theorem sets_element (some_face : sound → faces ≠ []) {content : Content}
    (plain : sound → content.Plain) (laid : ∀ inner ∈ content.inner, Laid sound faces inner)
    (levels : Nat) :
    SetsAlone sound levels styles faces content (element faces levels styles content) := by
  cases levels with
  | zero => exact sets_at_no_levels content
  | succ levels =>
      cases content with
      | bare span =>
          rw [element]
          exact fun isSound => absurd rfl (plain isSound _ (by simp [elements]) span)
      | sequence children span => exact sets_sequence laid
      | text written upright limits span =>
          rw [element]
          exact sets_text (settles_text some_face written upright limits) rfl rfl rfl rfl
      | op written limits span =>
          rw [element]
          refine sets_text ((TextRun.settles_layout ..).followed ?_) rfl rfl rfl rfl
          exact fun frame draws => .pure draws
      | primes count span =>
          rw [element]
          refine sets_text ((TextRun.settles_layout ..).followed ?_) rfl rfl rfl rfl
          exact fun frame draws => .pure draws
      | frac num denom span => exact sets_frac some_face laid
      | attach base top bottom marks span => exact sets_attach some_face laid
      | root index radicand span => exact sets_root some_face laid
      | lr opening body closing span => exact sets_lr some_face laid
      | alignPoint span =>
          rw [element]
          exact sets_break rfl
      | linebreak span =>
          rw [element]
          exact sets_break rfl
      | vec children delims span =>
          rw [element]
          refine sets_grid some_face true delims.1 delims.2
            ((settles_cells laid).congr Iff.rfl Iff.rfl ?_) rfl rfl (by simp [texts])
            (by simp [texts])
          intro set draws
          simpa [List.flatMap_map] using draws
      | mat rows delims span =>
          rw [element]
          have members {holds : Content → Prop} : (∀ row ∈ rows, ∀ child ∈ row, holds child) ↔
              ∀ child ∈ rows.flatten, holds child :=
            List.forall_mem_flatten.symm
          exact sets_grid some_face true delims.1 delims.2
            ((settles_cellRows (members.mpr laid)).congr members members fun _ => id) rfl rfl
            (by simp [texts]) (by simp [texts])
      | cases children delim span =>
          rw [element]
          refine sets_grid some_face false delim ""
            ((settles_cells laid).congr Iff.rfl Iff.rfl ?_) rfl rfl (by simp [texts])
            (by simp [texts])
          intro set draws
          simpa [List.flatMap_map] using draws
      | binom upper lower span => exact sets_binom some_face laid
      | overline body span =>
          rw [element]
          exact sets_line some_face true (laid body (by simp [Content.inner])) rfl rfl rfl rfl
      | underline body span =>
          rw [element]
          exact sets_line some_face false (laid body (by simp [Content.inner])) rfl rfl rfl rfl
      | upright body span =>
          rw [element]
          exact sets_body (laid body (by simp [Content.inner])) rfl rfl rfl rfl rfl
      | equation body block span =>
          rw [element]
          exact sets_body (laid body (by simp [Content.inner])) rfl rfl rfl rfl rfl

theorem laid_element (some_face : sound → faces ≠ []) (content : Content)
    (plain : sound → content.Plain) : Laid sound faces content := by
  induction content using Content.induction with
  | step content induction =>
      have laid : ∀ inner ∈ content.inner, Laid sound faces inner := fun inner member =>
        induction inner member fun isSound => (plain isSound).inner member
      constructor
      · intro levels styles
        exact sets_element some_face plain laid levels
      · rintro levels styles children span rfl
        exact setsRow_pieces laid

end Layout
end EquationMap
