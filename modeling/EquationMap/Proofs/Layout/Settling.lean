import EquationMap.Proofs.Layout.Demand
import EquationMap.Proofs.Spans.Drawing

namespace EquationMap

/-! How the layout of an element ends: it stops at elements that nest too deeply, reports texts
that no face covers, and draws what the others ask for. -/

variable {α : Type} [Length α] {faces : List (FontFace α)}

namespace Figure

/-- What is drawn by a figure, glyph by glyph. -/
def drawn : Figure α → List Drawn
  | run made => made.glyphs.map fun glyph => .mark glyph.char glyph.span glyph.offset
  | shape _ span => [.stroke span]

/-- Whether the glyphs of a run come from one element, and have the given fill. -/
def Proper (fill : Option Color) : Figure α → Prop
  | run made => made.fill = fill ∧ made.glyphs ≠ [] ∧
      ∃ span, ∀ glyph ∈ made.glyphs, glyph.span = span
  | shape _ _ => True

end Figure

/-- Figures that draw these things, and are proper. -/
structure Draws (fill : Option Color) (things : Multiset Drawn) (figures : List (Figure α)) :
    Prop where
  drawn : (↑(figures.flatMap Figure.drawn) : Multiset Drawn) = things
  proper : ∀ figure ∈ figures, figure.Proper fill

namespace Draws

variable {fill : Option Color} {things others : Multiset Drawn} {figures more : List (Figure α)}

theorem nothing : Draws fill 0 ([] : List (Figure α)) :=
  ⟨rfl, by simp⟩

theorem stroke (shape : Shape α) (span : Span) :
    Draws fill {.stroke span} [.shape shape span] :=
  ⟨rfl, by simp [Figure.Proper]⟩

theorem append (first : Draws fill things figures) (second : Draws fill others more) :
    Draws fill (things + others) (figures ++ more) where
  drawn := by rw [List.flatMap_append, ← Multiset.coe_add, first.drawn, second.drawn]
  proper := List.forall_mem_append.mpr ⟨first.proper, second.proper⟩

theorem congr (draws : Draws fill things figures) (same : things = others) :
    Draws fill others figures :=
  same ▸ draws

theorem perm (draws : Draws fill things figures) (permuted : more.Perm figures) :
    Draws fill things more where
  drawn := by
    rw [← draws.drawn]
    exact Multiset.coe_eq_coe.mpr (permuted.flatMap_right _)
  proper := fun figure member => draws.proper figure (permuted.subset member)

end Draws

/-- How layout ends if its content is sound, and what it gives whether it is or not. It stops
only where elements do not fit, and reports nothing only if all texts are covered. -/
def Settles {β : Type} (sound fits covered : Prop) (holds : β → Prop) (layout : Layouting β) :
    Prop :=
  match layout.result with
  | .ok value => holds value ∧ (sound → fits ∧ (layout.reports = [] ↔ covered))
  | .error stop => sound → ¬fits ∧ ∃ span, stop = .tooDeep span

namespace Settles

variable {β γ : Type} {sound fits covered fits' covered' : Prop} {holds : β → Prop}
  {holds' : γ → Prop} {first : Layouting β} {next : β → Layouting γ}

theorem pure {value : β} (here : holds value) :
    Settles sound True True holds (pure value : Layouting β) :=
  ⟨here, fun _ => ⟨trivial, Iff.intro (fun _ => trivial) fun _ => rfl⟩⟩

theorem bind (settles : Settles sound fits covered holds first)
    (later : ∀ value, holds value → Settles sound fits' covered' holds' (next value)) :
    Settles sound (fits ∧ fits') (covered ∧ covered') holds' (first >>= next) := by
  change Settles _ _ _ _ (Outcome.bind first next)
  unfold Settles at settles
  unfold Outcome.bind
  split at settles
  · rename_i value given
    have rest := later value settles.1
    rw [given]
    unfold Settles at rest ⊢
    dsimp only
    split at rest
    · refine ⟨rest.1, fun isSound => ?_⟩
      obtain ⟨here, reports⟩ := settles.2 isSound
      obtain ⟨there, reports'⟩ := rest.2 isSound
      rw [List.append_eq_nil_iff, reports, reports']
      exact ⟨⟨here, there⟩, Iff.rfl⟩
    · intro isSound
      obtain ⟨notThere, deep⟩ := rest isSound
      exact ⟨fun both => notThere both.2, deep⟩
  · rename_i stop given
    rw [given]
    unfold Settles
    intro isSound
    obtain ⟨notHere, deep⟩ := settles isSound
    exact ⟨fun both => notHere both.1, deep⟩

theorem congr {holds' : β → Prop} (settles : Settles sound fits covered holds first)
    (fits_iff : fits ↔ fits') (covered_iff : covered ↔ covered')
    (weaker : ∀ value, holds value → holds' value) :
    Settles sound fits' covered' holds' first := by
  unfold Settles at settles ⊢
  split at settles
  · refine ⟨weaker _ settles.1, ?_⟩
    rw [← fits_iff, ← covered_iff]
    exact settles.2
  · rw [← fits_iff]
    exact settles

theorem followed (settles : Settles sound fits covered holds first)
    (later : ∀ value, holds value → Settles sound True True holds' (next value)) :
    Settles sound fits covered holds' (first >>= next) :=
  (settles.bind later).congr (and_iff_left trivial) (and_iff_left trivial) fun _ => id

theorem preceded (settles : Settles sound True True holds first)
    (later : ∀ value, holds value → Settles sound fits' covered' holds' (next value)) :
    Settles sound fits' covered' holds' (first >>= next) :=
  (settles.bind later).congr (and_iff_right trivial) (and_iff_right trivial) fun _ => id

end Settles

namespace TextRun

variable {fill : Option Color} {size : α} {italic : Bool} {span : Span}

theorem exists_of_glyphsFrom_cons {offset : Nat} {c : Char} {rest : List Char}
    {glyphs : List (Shaped α)}
    (made : glyphsFrom faces span offset (c :: rest) = .ok glyphs) :
    ∃ face ∈ faces, ∃ index others, face.covers c = true ∧
      glyphsFrom faces span (offset + c.utf8Size) rest = .ok others ∧
      glyphs = ⟨index, face, c, ⟨c.toString, face.advance c, 0.0, span, offset⟩⟩ :: others := by
  unfold glyphsFrom at made
  split at made
  · cases made
  · rename_i face index found
    have isFace := List.fst_mem_of_mem_zipIdx (List.mem_of_find?_eq_some found)
    cases later : glyphsFrom faces span (offset + c.utf8Size) rest with
    | error missing =>
        rw [later] at made
        cases made
    | ok others =>
        rw [later] at made
        cases made
        exact ⟨face, isFace, index, others, by simpa using List.find?_some found, rfl, rfl⟩

theorem glyphsFrom_eq_ok {offset : Nat} {text : List Char} {glyphs : List (Shaped α)}
    (made : glyphsFrom faces span offset text = .ok glyphs) :
    (text.all fun c => faces.any fun face => face.covers c) = true ∧
      (glyphs.map fun shaped =>
        Drawn.mark shaped.glyph.char shaped.glyph.span shaped.glyph.offset) =
        Drawn.marksFrom span offset text := by
  induction text generalizing offset glyphs with
  | nil =>
      cases made
      exact ⟨rfl, rfl⟩
  | cons c rest induction =>
      obtain ⟨face, isFace, index, others, covers, later, rfl⟩ := exists_of_glyphsFrom_cons made
      obtain ⟨covered, marks⟩ := induction later
      have here : (faces.any fun face => face.covers c) = true :=
        List.any_eq_true.mpr ⟨face, isFace, covers⟩
      constructor
      · rw [List.all_cons, here, covered]
        rfl
      · rw [List.map_cons, marks, Drawn.marksFrom_cons]

theorem glyphsFrom_eq_error {offset : Nat} {text : List Char} {missing : Char}
    (made : glyphsFrom faces span offset text = .error missing) :
    (text.all fun c => faces.any fun face => face.covers c) = false := by
  induction text generalizing offset missing with
  | nil => cases made
  | cons c rest induction =>
      unfold glyphsFrom at made
      rw [List.all_cons, Bool.and_eq_false_iff]
      split at made
      · rename_i notFound
        refine .inl (List.any_eq_false.mpr fun face member covers => ?_)
        obtain ⟨index, here⟩ := List.getElem?_of_mem member
        have entry := List.mk_mem_zipIdx_iff_getElem?.mpr here
        exact List.find?_eq_none.mp notFound _ entry covers
      · cases later : glyphsFrom faces span (offset + c.utf8Size) rest with
        | error other => exact .inr (induction later)
        | ok others =>
            rw [later] at made
            cases made

theorem flatten_runsOf (glyphs : List (Shaped α)) : (runsOf glyphs).flatten = glyphs := by
  induction glyphs with
  | nil => rfl
  | cons first rest induction =>
      unfold runsOf
      split
      · rename_i next run runs split
        rw [split] at induction
        rw [← induction]
        split <;> simp
      · rw [List.flatten_cons, induction]
        rfl

theorem span_of_glyphsFrom {offset : Nat} {text : List Char} {glyphs : List (Shaped α)}
    (made : glyphsFrom faces span offset text = .ok glyphs) :
    ∀ shaped ∈ glyphs, shaped.glyph.span = span := by
  intro shaped member
  have marked := List.mem_map_of_mem
    (f := fun shaped : Shaped α =>
      Drawn.mark shaped.glyph.char shaped.glyph.span shaped.glyph.offset) member
  rw [(glyphsFrom_eq_ok made).2, Drawn.marksFrom] at marked
  obtain ⟨index, bound, same⟩ := List.mem_mapIdx.mp marked
  exact (Drawn.mark.inj same).2.1.symm

theorem runsOf_subset (glyphs : List (Shaped α)) :
    ∀ run ∈ runsOf glyphs, run ⊆ glyphs := by
  intro run member shaped inside
  rw [← flatten_runsOf glyphs]
  exact List.mem_flatten_of_mem member inside

theorem glyphs_ofShaped (runs : List (List (Shaped α))) :
    ((runs.filterMap (ofShaped size fill italic)).flatMap TextRun.glyphs) =
      runs.flatten.map Shaped.glyph := by
  induction runs with
  | nil => rfl
  | cons run rest induction =>
      cases run with
      | nil =>
          rw [List.filterMap_cons_none rfl]
          exact induction
      | cons first others =>
          simp [ofShaped, induction]

theorem figures_place (ascent x : α) (frame : Frame α) (runs : List (TextRun α)) :
    (place ascent x frame runs).figures = frame.figures ++ runs.map Figure.run := by
  induction runs generalizing x frame with
  | nil => simp [place]
  | cons run rest induction => simp [place, induction, Item.figures]

theorem figures_frameOf (runs : List (TextRun α)) :
    (frameOf runs).figures = runs.map Figure.run := by
  cases runs with
  | nil => rfl
  | cons first rest => simp [frameOf, figures_place]

theorem settles_layout {sound : Prop} (styles : Styles α) (text : String) (size : α)
    (span : Span) (italic : Bool) :
    Settles sound True (FontFace.coverText faces text = true)
      (fun frame => Draws styles.fill (FontFace.set faces text span) frame.figures)
      (layout faces styles text size span italic) := by
  unfold layout
  split
  · rename_i glyphs made
    obtain ⟨allCovered, marks⟩ := glyphsFrom_eq_ok made
    have covered : FontFace.coverText faces text = true := allCovered
    have set : FontFace.set faces text span = ↑(Drawn.marksFrom span 0 text.toList) :=
      if_pos covered
    refine (Settles.pure ?_).congr Iff.rfl (iff_of_true trivial covered) fun _ => id
    rw [set, figures_frameOf]
    constructor
    · have drawn : (((runsOf glyphs).filterMap (ofShaped size styles.fill italic)).map
          Figure.run).flatMap Figure.drawn = Drawn.marksFrom span 0 text.toList := by
        rw [List.flatMap_map]
        simp only [Figure.drawn]
        rw [← List.map_flatMap, glyphs_ofShaped, flatten_runsOf, List.map_map]
        exact marks
      rw [drawn]
    · intro figure member
      obtain ⟨run, isRun, rfl⟩ := List.mem_map.mp member
      obtain ⟨shaped, isShaped, formed⟩ := List.mem_filterMap.mp isRun
      cases shaped with
      | nil => cases formed
      | cons first rest =>
          cases formed
          refine ⟨rfl, by simp, span, ?_⟩
          intro glyph isGlyph
          obtain ⟨source, isSource, rfl⟩ := List.mem_map.mp isGlyph
          exact span_of_glyphsFrom made source (runsOf_subset glyphs _ isShaped isSource)
  · rename_i missing made
    have uncovered : ¬ FontFace.coverText faces text = true :=
      ne_true_of_eq_false (glyphsFrom_eq_error made)
    have set : FontFace.set faces text span = 0 := if_neg uncovered
    rw [set]
    exact ⟨Draws.nothing, fun _ => ⟨trivial, iff_of_false (List.cons_ne_nil _ _) uncovered⟩⟩

end TextRun

end EquationMap
