import EquationMap.Proofs.Answers.Faults
import EquationMap.Proofs.Parsing.Progress
import EquationMap.Proofs.Regions.Records
import EquationMap.Proofs.Spans.Fragments

namespace EquationMap

/-! Every text is answered: with a drawing and its records, or with what is wrong with the text.
The one way around an answer is a number that cannot be read, computed or shown. -/

namespace Svg

theorem exists_items {list : List (Item Float)}
    (filled : ∀ figure ∈ Item.figuresOfList list, ∀ run, figure = .run run → run.fill ≠ none) :
    ∃ drawn, items list = .ok drawn := by
  fun_induction items list with
  | case1 => exact ⟨[], rfl⟩
  | case2 position size baseline inner rest inner_drawn rest_drawn =>
      rw [Item.figuresOfList, Item.figures] at filled
      obtain ⟨inside, later⟩ := List.forall_mem_append.mp filled
      obtain ⟨children, drawn⟩ := inner_drawn inside
      obtain ⟨others, drawn'⟩ := rest_drawn later
      rw [drawn, drawn']
      exact ⟨_, rfl⟩
  | case3 position run rest rest_drawn =>
      rw [Item.figuresOfList, Item.figures, List.singleton_append] at filled
      obtain ⟨here, later⟩ := List.forall_mem_cons.mp filled
      obtain ⟨others, drawn⟩ := rest_drawn later
      obtain ⟨fill, filled⟩ := Option.ne_none_iff_exists'.mp (here run rfl)
      rw [text, filled, drawn]
      exact ⟨_, rfl⟩
  | case4 position drawn span rest rest_drawn =>
      rw [Item.figuresOfList, Item.figures, List.singleton_append] at filled
      obtain ⟨others, drawn⟩ := rest_drawn (List.forall_mem_cons.mp filled).2
      rw [drawn]
      exact ⟨_, rfl⟩
  | case5 position kind span rest rest_drawn =>
      rw [Item.figuresOfList, Item.figures, List.nil_append] at filled
      exact rest_drawn filled

end Svg

theorem Frame.exists_toSvg {frame : Frame Float} {color : Color}
    (proper : ∀ figure ∈ frame.figures, figure.Proper (some color)) :
    ∃ svg, frame.toSvg = .ok svg := by
  have filled : ∀ figure ∈ Item.figuresOfList frame.items, ∀ run, figure = .run run →
      run.fill ≠ none := by
    rintro figure member run rfl
    rw [Item.figuresOfList_eq] at member
    rw [(proper _ member).1]
    exact Option.some_ne_none color
  obtain ⟨drawn, made⟩ := Svg.exists_items filled
  rw [toSvg, Svg.drawing, made]
  exact ⟨_, rfl⟩

section

variable {text : String} {failure : Failure} {source : Source}

/-- A text that is not typeset is refused, or breaks down, at one of three stages. -/
theorem failed_stage_of_typeset {α : Type} [Length α]
    (made : (typeset text : Except Failure (Typeset α)) = .error failure) :
    Source.ofText text = .error failure ∨
      ∃ source, Source.ofText text = .ok source ∧
        (source.evaluate globalScope = .error failure ∨
          ∃ content, source.evaluate globalScope = .ok content ∧
            source.layout content (Styles.standard : Styles α) {} = .error failure) := by
  unfold typeset at made
  cases read : Source.ofText text with
  | error other =>
      rw [read] at made
      cases made
      exact .inl rfl
  | ok source =>
      rw [read] at made
      simp only [bind, Except.bind] at made
      refine .inr ⟨source, rfl, ?_⟩
      cases evaluated : source.evaluate globalScope with
      | error other =>
          simp only [evaluated] at made
          cases made
          exact .inl rfl
      | ok content =>
          simp only [evaluated] at made
          split at made
          · rename_i other laid
            cases made
            exact .inr ⟨content, rfl, laid⟩
          · cases made

theorem Typeset.exists_toSvg {formula : Typeset Float} (made : typeset text = .ok formula) :
    ∃ svg, formula.frame.toSvg = .ok svg := by
  obtain ⟨-, -, laid⟩ := exists_stages_of_typeset made
  obtain ⟨faces, draws, -⟩ := Layout.draws_block (Source.block_of_layout laid)
  exact Frame.exists_toSvg draws.proper

theorem failed_stage_of_render (rendered : render text = .error failure) :
    Source.ofText text = .error failure ∨
      ∃ source, Source.ofText text = .ok source ∧
        (source.evaluate globalScope = .error failure ∨
          ∃ content, source.evaluate globalScope = .ok content ∧
            source.layout content (Styles.standard : Styles Float) {} = .error failure) := by
  unfold render at rendered
  simp only [bind, Except.bind] at rendered
  split at rendered
  · rename_i other made
    cases rendered
    exact failed_stage_of_typeset made
  · rename_i formula made
    obtain ⟨svg, drawn⟩ := Typeset.exists_toSvg made
    simp only [drawn] at rendered
    cases rendered

end

def Json.keys : Json → List String
  | .obj fields => fields.map Prod.fst
  | _ => []

end EquationMap
