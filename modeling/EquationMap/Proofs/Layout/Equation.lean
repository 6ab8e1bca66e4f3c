import EquationMap.Proofs.Layout.Elements

namespace EquationMap

variable {α : Type} [Length α] {faces : List (FontFace α)}

namespace Layout

open Content

variable {styles : Styles α} {span : Span} {sound : Prop}

theorem flatten_eq (contents : List Content) : flatten contents = contents.flatMap flattenOne := by
  induction contents with
  | nil => rfl
  | cons content rest induction => rw [flatten, induction, List.flatMap_cons]

theorem flatten_divide (contents : List Content) :
    (divide contents).flatten.flatten = contents.filter fun content => !content.isBreak := by
  have unbroken {content : Content} (no_linebreak : ∀ span, content = .linebreak span → False)
      (no_alignPoint : ∀ span, content = .alignPoint span → False) :
      content.isBreak = false := by
    cases content with
    | linebreak span => exact (no_linebreak span rfl).elim
    | alignPoint span => exact (no_alignPoint span rfl).elim
    | _ => rfl
  fun_induction divide contents with
  | case1 => rfl
  | case2 span rest induction =>
      rw [List.filter_cons, isBreak, ← induction]
      simp
  | case3 span rest line lines divided induction =>
      rw [List.filter_cons, isBreak, ← induction, divided]
      simp
  | case4 span rest divided induction =>
      rw [List.filter_cons, isBreak, ← induction, divided]
      simp
  | case5 content rest no_linebreak no_alignPoint segment line lines divided induction =>
      rw [List.filter_cons, unbroken no_linebreak no_alignPoint, ← induction, divided]
      simp
  | case6 content rest no_linebreak no_alignPoint unopened induction =>
      rw [List.filter_cons, unbroken no_linebreak no_alignPoint, ← induction]
      simp

theorem flattenOne_induction {motive : Content → Prop}
    (atom : ∀ content, flattenOne content = [content] → motive content)
    (sequence : ∀ children span, (∀ child ∈ children, motive child) →
      flattenOne (.sequence children span) = children.flatMap flattenOne →
        motive (.sequence children span))
    (content : Content) : motive content := by
  induction content using Content.induction with
  | step content induction =>
      cases content with
      | sequence children span => exact sequence children span induction (flatten_eq children)
      | _ => exact atom _ rfl

theorem flattenOne_of_mem {content member : Content} (inside : member ∈ flattenOne content) :
    flattenOne member = [member] := by
  induction content using flattenOne_induction with
  | atom content alone =>
      rw [alone, List.mem_singleton] at inside
      rw [inside, alone]
  | sequence children span induction split =>
      rw [split] at inside
      obtain ⟨child, isChild, inside⟩ := List.mem_flatMap.mp inside
      exact induction child isChild inside

theorem forall_flattenOne_iff {holds : Content → Prop}
    (sequences : ∀ children span, holds (.sequence children span)) (content : Content) :
    (∀ member ∈ flattenOne content, ∀ element ∈ member.elements, holds element) ↔
      ∀ element ∈ content.elements, holds element := by
  induction content using flattenOne_induction with
  | atom content alone => rw [alone, List.forall_mem_singleton]
  | sequence children span induction split =>
      rw [split, forall_elements_iff, List.forall_mem_flatMap]
      exact (forall₂_congr induction).trans (and_iff_right (sequences children span)).symm

theorem display_flattenOne (faces : List (FontFace α)) (content : Content) :
    ((flattenOne content).map (display faces)).sum = content.display faces := by
  induction content using flattenOne_induction with
  | atom content alone => simp [alone]
  | sequence children span induction split =>
      rw [split, display_eq, List.map_flatMap, List.flatMap_def, List.sum_flatten, List.map_map]
      simpa [shown, rule, isRuled, texts, Content.inner, Function.comp_def] using
        congrArg List.sum (List.map_congr_left induction)

theorem settles_segments {line : List (List Content)}
    (laid : ∀ segment ∈ line, ∀ content ∈ segment, Laid sound faces content) :
    Settles sound
      (∀ segment ∈ line, ∀ member ∈ rowMembers segment, member.Fits maxLayoutDepth)
      (∀ segment ∈ line, ∀ content ∈ segment, content.Covered faces)
      (fun set => Draws styles.fill (line.flatten.map (display faces)).sum
        (set.flatMap Frame.figures))
      (segments faces styles line) := by
  induction line with
  | nil =>
      rw [segments]
      exact (Settles.pure Draws.nothing).congr (by simp) (by simp) fun _ => id
  | cons segment rest induction =>
      obtain ⟨here, later⟩ := List.forall_mem_cons.mp laid
      rw [segments]
      refine Settles.congr (.bind (setsRow_pieces here) ?_) (by rw [List.forall_mem_cons])
        (by rw [List.forall_mem_cons]) fun _ => id
      intro set set_draws
      refine (induction later).followed ?_
      intro others draws
      refine .pure ?_
      rw [List.flatten_cons, List.map_append, List.sum_append, List.flatMap_cons,
        Compose.figures_row]
      exact set_draws.append draws

theorem settles_lines {divided : List (List (List Content))}
    (laid : ∀ line ∈ divided, ∀ segment ∈ line, ∀ content ∈ segment,
      Laid sound faces content) :
    Settles sound
      (∀ line ∈ divided, ∀ segment ∈ line, ∀ member ∈ rowMembers segment,
        member.Fits maxLayoutDepth)
      (∀ line ∈ divided, ∀ segment ∈ line, ∀ content ∈ segment, content.Covered faces)
      (fun set => Draws styles.fill (divided.flatten.flatten.map (display faces)).sum
        (set.flatMap fun line => line.flatMap Frame.figures))
      (lines faces styles divided) := by
  induction divided with
  | nil =>
      rw [lines]
      exact (Settles.pure Draws.nothing).congr (by simp) (by simp) fun _ => id
  | cons line rest induction =>
      obtain ⟨here, later⟩ := List.forall_mem_cons.mp laid
      rw [lines]
      refine Settles.congr (.bind (settles_segments here) ?_) (by rw [List.forall_mem_cons])
        (by rw [List.forall_mem_cons]) fun _ => id
      intro first first_draws
      refine (induction later).followed ?_
      intro others draws
      refine .pure ?_
      rw [List.flatten_cons, List.flatten_append, List.map_append, List.sum_append]
      exact first_draws.append draws

theorem rowMembers_segment {body : Content} {line : List (List Content)} {segment : List Content}
    (isLine : line ∈ divide (flattenOne body)) (isSegment : segment ∈ line) :
    rowMembers segment = segment := by
  have members : ∀ content ∈ segment, content ∈ flattenOne body ∧ content.isBreak = false := by
    intro content member
    have divided : content ∈ (divide (flattenOne body)).flatten.flatten :=
      List.mem_flatten_of_mem (List.mem_flatten_of_mem isLine isSegment) member
    rw [flatten_divide, List.mem_filter] at divided
    exact ⟨divided.1, by simpa using divided.2⟩
  have atoms : flatten segment = segment := by
    have alone : ∀ content ∈ segment, flattenOne content = [content] :=
      fun content member => flattenOne_of_mem (members content member).1
    rw [flatten_eq, List.flatMap_congr alone, List.flatMap_singleton']
  rw [rowMembers, atoms, List.filter_eq_self]
  intro content member
  rw [(members content member).2]
  rfl

theorem display_filter (faces : List (FontFace α)) (contents : List Content) :
    ((contents.filter fun content => !content.isBreak).map (display faces)).sum =
      (contents.map (display faces)).sum := by
  induction contents with
  | nil => rfl
  | cons content rest induction =>
      cases isBreak : content.isBreak with
      | false => simp [isBreak, induction]
      | true => simp [isBreak, induction, display_of_isBreak faces isBreak]

theorem settles_equation (some_face : sound → faces ≠ []) {body : Content}
    (plain : sound → body.Plain) :
    Settles sound (∀ member ∈ rowMembers [body], member.Fits maxLayoutDepth)
      (body.Covered faces)
      (fun frame => Draws styles.fill (body.display faces) frame.figures)
      (equation faces styles body span) := by
  have whole : flatten [body] = flattenOne body := by simp [flatten]
  have divided : (divide (flattenOne body)).flatten.flatten = rowMembers [body] := by
    rw [flatten_divide, rowMembers, whole]
  have members {holds : Content → Prop} :
      (∀ line ∈ divide (flattenOne body), ∀ segment ∈ line, ∀ content ∈ segment,
        holds content) ↔ ∀ content ∈ rowMembers [body], holds content := by
    rw [← divided, List.forall_mem_flatten, List.forall_mem_flatten]
  have laid : ∀ content ∈ rowMembers [body], Laid sound faces content := by
    intro content member
    refine laid_element some_face content fun isSound => ?_
    have all := (forall_flattenOne_iff (fun children span other => ?_) body).mpr (plain isSound)
    · rw [rowMembers, whole] at member
      exact all content (List.mem_of_mem_filter member)
    · simp
  unfold equation
  rw [whole]
  refine Settles.congr ((settles_lines (members.mpr laid)).followed ?_) ?_ ?_ fun _ => id
  · intro set draws
    refine .pure ?_
    rw [Compose.figures_equation]
    refine draws.congr ?_
    rw [flatten_divide, display_filter, display_flattenOne]
  · refine Iff.trans ?_ members
    exact forall₂_congr fun line isLine => forall₂_congr fun segment isSegment => by
      rw [rowMembers_segment isLine isSegment]
  · refine members.trans ?_
    refine Iff.trans ?_ (forall_flattenOne_iff (by simp [texts]) body)
    rw [rowMembers, whole]
    constructor
    · intro all member inside
      cases isBreak : member.isBreak with
      | true => exact covered_of_isBreak faces isBreak
      | false => exact all member (List.mem_filter.mpr ⟨inside, by simp [isBreak]⟩)
    · exact fun all member inside => all member (List.mem_of_mem_filter inside)

end Layout

theorem Content.display_of_covered {content : Content} (covered : content.Covered faces) :
    content.display faces = (content.elements.map asked).sum := by
  refine congrArg List.sum (List.map_congr_left fun element member => ?_)
  refine congrArg (List.sum · + element.rule) (List.map_congr_left fun text isText => ?_)
  exact if_pos (covered element member text isText)

theorem Content.not_covered_iff {content : Content} :
    ¬content.Covered faces ↔ ∃ element ∈ content.elements, ∃ text ∈ element.texts,
      ∃ c ∈ text.toList, ∀ face ∈ faces, face.covers c = false := by
  simp [Covered, FontFace.coverText]

/-- What is drawn in a frame, through all groups. -/
def Frame.drawn (frame : Frame α) : Multiset Drawn :=
  ↑(frame.figures.flatMap Figure.drawn)

/-- Layout fails exactly on content with a character that no face has, or with elements that
are laid out too deep. Otherwise it draws what the elements ask for, each thing as often as they
ask for it, and nothing else. -/
theorem equation_draws_demand (faces : List (FontFace α)) (styles : Styles α) (body : Content)
    (span : Span) (some_face : faces ≠ []) (plain : body.Plain) :
    let layout := Layout.equation faces styles body span
    ((layout.reports ≠ [] ∨ ∃ deep, layout.result = .error (.tooDeep deep)) ↔
        (∃ element ∈ body.elements, ∃ text ∈ element.texts, ∃ c ∈ text.toList,
          ∀ face ∈ faces, face.covers c = false) ∨
        ∃ depth element, Content.LaidOut (Content.rowMembers [body]) depth element ∧
          maxLayoutDepth < depth) ∧
      (¬(layout.reports ≠ [] ∨ ∃ deep, layout.result = .error (.tooDeep deep)) →
        ∃ frame, layout.result = .ok frame ∧
          frame.drawn = (body.elements.map Content.asked).sum) := by
  intro layout
  have settles : Settles True _ _ _ layout :=
    Layout.settles_equation (fun _ => some_face) (fun _ => plain)
  rw [Content.forall_fits_iff] at settles
  rw [← Content.not_covered_iff]
  unfold Settles at settles
  split at settles
  · rename_i frame made
    obtain ⟨draws, rest⟩ := settles
    obtain ⟨fits, covered⟩ := rest trivial
    rw [made]
    constructor
    · constructor
      · rintro (reported | ⟨deep, stopped⟩)
        · exact .inl (mt covered.mpr reported)
        · cases stopped
      · rintro (uncovered | ⟨depth, element, laid, deep⟩)
        · exact .inl (mt covered.mp uncovered)
        · exact absurd (fits depth element laid) (Nat.not_le_of_lt deep)
    · intro settled
      have silent : layout.reports = [] := by_contra fun reported => settled (.inl reported)
      refine ⟨frame, rfl, ?_⟩
      rw [Frame.drawn, draws.drawn]
      exact Content.display_of_covered (covered.mp silent)
  · rename_i stop made
    obtain ⟨unfit, deep, rfl⟩ := settles trivial
    rw [made]
    refine ⟨iff_of_true (.inr ⟨deep, rfl⟩) (.inr ?_), fun settled => ?_⟩
    · simpa using unfit
    · exact absurd (.inr ⟨deep, rfl⟩) settled

/-- A fraction aligned with a root that has marks and a script, and a matrix on a second line. -/
def sampleEquation : Content :=
  let span := Span.numbered "main"
  .sequence
    [.frac (.plain "a" (span 2)) (.sequence [.plain "b" (span 3), .plain "∑" (span 4)] (span 5))
      (span 6),
     .alignPoint (span 7),
     .attach (.root (some (.plain "n" (span 8))) (.plain "x" (span 9)) (span 10))
      (some (.primes 2 (span 11))) (some (.op "lim" true (span 12))) none (span 13),
     .linebreak (span 14),
     .mat [[.plain "1" (span 15)], [.plain "é" (span 16), .plain "z" (span 17)]] ("[", "]")
      (span 18)]
    (span 19)

def sampleLayout : Layouting (Frame Rat) :=
  Layout.equation FontFace.catalog .standard sampleEquation (.numbered "main" 1)

theorem equation_draws_demand_of_sample :
    sampleEquation.Plain ∧
      ∃ frame, sampleLayout.result = .ok frame ∧
        frame.drawn = (sampleEquation.elements.map Content.asked).sum := by
  have plain : sampleEquation.Plain := by
    simp [Content.Plain, sampleEquation, Content.plain, Content.elements, Content.elementsOfList,
      Content.elementsOfRows, Content.elementsOfOption]
  have laid : sampleLayout.reports = [] ∧ sampleLayout.result.isOk = true := by decide +kernel
  refine ⟨plain, (equation_draws_demand _ _ _ _ (by simp [FontFace.catalog]) plain).2 ?_⟩
  rintro (reported | ⟨deep, stopped⟩)
  · exact reported laid.1
  · have failed : sampleLayout.result = .error (.tooDeep deep) := stopped
    rw [failed] at laid
    cases laid.2

end EquationMap
