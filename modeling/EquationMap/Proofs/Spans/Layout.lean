import EquationMap.Proofs.Layout.Equation

namespace EquationMap

variable {Known : Span → Prop} {α : Type} [Length α] {faces : List (FontFace α)}

def Drawn.span : Drawn → Span
  | mark _ span _ => span
  | stroke span => span

theorem Drawn.span_of_mem_marksFrom {thing : Drawn} {span : Span} {offset : Nat}
    {text : List Char} (member : thing ∈ marksFrom span offset text) : thing.span = span := by
  obtain ⟨index, bound, rfl⟩ := List.mem_mapIdx.mp member
  rfl

theorem mem_sum_map_iff {β γ : Type} {contents : List β} {part : β → Multiset γ} {thing : γ} :
    thing ∈ (contents.map part).sum ↔ ∃ content ∈ contents, thing ∈ part content := by
  induction contents with
  | nil => simp
  | cons content rest induction => simp [induction]

theorem Content.Spanned.plain {content : Content} (spanned : content.Spanned Known) :
    content.Plain := by
  rintro element member span rfl
  cases (spanned _ member).2

theorem Content.span_of_mem_shown {content : Content} {thing : Drawn}
    (member : thing ∈ content.shown faces) : thing.span = content.span := by
  rcases Multiset.mem_add.mp member with inText | inRule
  · obtain ⟨text, -, inText⟩ := mem_sum_map_iff.mp inText
    unfold FontFace.set at inText
    split at inText
    · exact Drawn.span_of_mem_marksFrom inText
    · cases inText
  · unfold rule at inRule
    split at inRule
    · rw [Multiset.mem_singleton.mp inRule]
      rfl
    · cases inRule

namespace Layout

variable {body : Content} {span : Span} {styles : Styles α} {region : Region α}
  {frame : Frame α}

/-- How the layout of an equation ends: it draws the whole body, or reports errors. Only elements
of no particular kind stop it in another way. -/
theorem settled_block :
    match block body span styles region with
    | .ok frame => ∃ faces : List (FontFace α),
        Draws styles.fill (body.display faces) frame.figures ∧
          (body.Plain → body.Covered faces)
    | .error failure => body.Plain → ∃ errors, failure = .errors errors := by
  unfold block
  generalize FontFace.select (FontFace.catalog : List (FontFace α)) styles.families
    styles.weight = faces
  cases faces with
  | nil => exact fun _ => ⟨_, rfl⟩
  | cons face others =>
      have settles : Settles body.Plain _ _ _ (equation (face :: others) styles body span) :=
        settles_equation (fun _ => List.cons_ne_nil face others) id
      unfold Settles at settles
      dsimp only
      split at settles
      · rename_i laid result
        rw [result]
        obtain ⟨draws, rest⟩ := settles
        dsimp only
        by_cases silent : (equation (face :: others) styles body span).reports = []
        · rw [silent]
          refine ⟨face :: others, ?_, fun plain => (rest plain).2.mp silent⟩
          rw [Compose.figures_fill]
          exact draws
        · rw [List.isEmpty_eq_false_iff.mpr silent]
          exact fun _ => ⟨_, rfl⟩
      -- The layout of a plain body stops for its depth only.
      · rename_i stop result
        rw [result]
        cases stop with
        | tooDeep deep => exact fun _ => ⟨_, rfl⟩
        | _ =>
            intro plain
            obtain ⟨-, deep, same⟩ := settles plain
            cases same

theorem draws_block (made : block body span styles region = .ok frame) :
    ∃ faces : List (FontFace α), Draws styles.fill (body.display faces) frame.figures ∧
      (body.Plain → body.Covered faces) := by
  have settled := @settled_block α _ body span styles region
  rw [made] at settled
  exact settled

/-- Whatever is drawn of an equation shows known parts of the source, if the spans of its
content are known. -/
theorem sourced_block (spanned : body.Spanned Known)
    (made : block body span styles region = .ok frame) : frame.Sourced Known := by
  obtain ⟨faces, draws, -⟩ := draws_block made
  have known : ∀ figure ∈ frame.figures, ∀ thing ∈ figure.drawn, Known thing.span := by
    intro figure member thing inFigure
    have inBody : thing ∈ body.display faces := by
      rw [← draws.drawn]
      exact List.mem_flatMap.mpr ⟨figure, member, inFigure⟩
    obtain ⟨element, isElement, shown⟩ := mem_sum_map_iff.mp inBody
    rw [Content.span_of_mem_shown shown]
    exact (spanned element isElement).1
  intro figure member
  cases figure with
  | run drawn =>
      refine ⟨(draws.proper _ member).2.1, fun glyph isGlyph => ?_⟩
      exact known _ member (.mark glyph.char glyph.span glyph.offset)
        (List.mem_map_of_mem isGlyph)
  | shape drawn span => exact known _ member (.stroke span) (List.mem_singleton_self _)

end Layout

end EquationMap
