import EquationMap.Content.Basic
import EquationMap.Outcome

namespace EquationMap

namespace Content

def inner : Content → List Content
  | sequence children _ | vec children _ _ | cases children _ _ => children
  | frac num denom _ => [num, denom]
  | attach base top bottom marks _ =>
      base :: top.toList ++ bottom.toList ++ marks.toList
  | root index radicand _ => index.toList ++ [radicand]
  | lr opening body closing _ => opening.toList ++ body :: closing.toList
  | mat rows _ _ => rows.flatten
  | binom upper lower _ => [upper, lower]
  | overline body _ | underline body _ | upright body _ | equation body _ _ => [body]
  | bare _ | text _ _ _ _ | op _ _ _ | primes _ _ | alignPoint _ | linebreak _ => []

mutual

def elements : Content → List Content
  | bare span => [bare span]
  | sequence children span => sequence children span :: elementsOfList children
  | text written isUpright limits span => [text written isUpright limits span]
  | op written limits span => [op written limits span]
  | frac num denom span => frac num denom span :: num.elements ++ denom.elements
  | primes count span => [primes count span]
  | attach base top bottom marks span =>
      attach base top bottom marks span :: base.elements ++ elementsOfOption top ++
        elementsOfOption bottom ++ elementsOfOption marks
  | root index radicand span =>
      root index radicand span :: elementsOfOption index ++ radicand.elements
  | lr opening body closing span =>
      lr opening body closing span :: elementsOfOption opening ++ body.elements ++
        elementsOfOption closing
  | alignPoint span => [alignPoint span]
  | linebreak span => [linebreak span]
  | vec children delims span => vec children delims span :: elementsOfList children
  | mat rows delims span => mat rows delims span :: elementsOfRows rows
  | cases children delim span => cases children delim span :: elementsOfList children
  | binom upper lower span => binom upper lower span :: upper.elements ++ lower.elements
  | overline body span => overline body span :: body.elements
  | underline body span => underline body span :: body.elements
  | upright body span => upright body span :: body.elements
  | equation body block span => equation body block span :: body.elements

def elementsOfList : List Content → List Content
  | [] => []
  | child :: rest => child.elements ++ elementsOfList rest

def elementsOfRows : List (List Content) → List Content
  | [] => []
  | row :: rest => elementsOfList row ++ elementsOfRows rest

def elementsOfOption : Option Content → List Content
  | none => []
  | some content => content.elements

end

theorem elementsOfList_eq (children : List Content) :
    elementsOfList children = children.flatMap elements := by
  induction children with
  | nil => rfl
  | cons child rest induction => rw [elementsOfList, induction, List.flatMap_cons]

theorem elementsOfRows_eq (rows : List (List Content)) :
    elementsOfRows rows = rows.flatten.flatMap elements := by
  induction rows with
  | nil => rfl
  | cons row rest induction =>
      rw [elementsOfRows, induction, elementsOfList_eq, List.flatten_cons, List.flatMap_append]

theorem elementsOfOption_eq (content : Option Content) :
    elementsOfOption content = content.toList.flatMap elements := by
  cases content <;> simp [elementsOfOption]

theorem elements_eq (content : Content) :
    content.elements = content :: content.inner.flatMap elements := by
  cases content <;>
    simp [elements, inner, elementsOfList_eq, elementsOfRows_eq, elementsOfOption_eq]

theorem induction {motive : Content → Prop}
    (step : ∀ content, (∀ element ∈ content.inner, motive element) → motive content)
    (content : Content) : motive content := by
  induction size : content.elements.length using Nat.strongRecOn generalizing content with
  | ind length induction =>
      refine step content fun element member => induction element.elements.length ?_ element rfl
      rw [← size, content.elements_eq, List.length_cons, Nat.lt_succ_iff]
      exact (List.sublist_flatten_of_mem (List.mem_map_of_mem member)).length_le

theorem forall_elements_iff {holds : Content → Prop} {content : Content} :
    (∀ element ∈ content.elements, holds element) ↔
      holds content ∧ ∀ inner ∈ content.inner, ∀ element ∈ inner.elements, holds element := by
  rw [elements_eq]
  simp only [List.mem_cons, forall_eq_or_imp, List.mem_flatMap]
  constructor
  · rintro ⟨here, below⟩
    exact ⟨here, fun element direct part inside => below part ⟨element, direct, inside⟩⟩
  · rintro ⟨here, below⟩
    refine ⟨here, ?_⟩
    rintro part ⟨element, direct, inside⟩
    exact below element direct part inside

def isBare : Content → Bool
  | bare _ => true
  | _ => false

theorem isBare_of_mem_inner {content element : Content} (member : element ∈ content.inner) :
    content.isBare = false := by
  cases content with
  | bare => cases member
  | _ => rfl

/-- Whether all elements of content are of particular kinds and have spans of some sort. -/
def Spanned (Known : Span → Prop) (content : Content) : Prop :=
  ∀ element ∈ content.elements, Known element.span ∧ element.isBare = false

/-- Whether all elements of content have such spans, or will when the content is put somewhere:
content without a span takes the span of its place. -/
def Placeable (Known : Span → Prop) (content : Content) : Prop :=
  (content.span = .detached ∨ Known content.span) ∧ content.isBare = false ∧
    ∀ element ∈ content.inner, element.Spanned Known

variable {Known : Span → Prop} {content : Content} {span : Span}

theorem spanned_iff :
    content.Spanned Known ↔
      Known content.span ∧ content.isBare = false ∧
        ∀ element ∈ content.inner, element.Spanned Known :=
  forall_elements_iff.trans and_assoc

theorem Spanned.here (spanned : content.Spanned Known) : Known content.span :=
  (spanned_iff.mp spanned).1

theorem Spanned.placeable (spanned : content.Spanned Known) : content.Placeable Known :=
  ⟨.inr spanned.here, (spanned_iff.mp spanned).2⟩

@[simp]
theorem span_withSpan (content : Content) (span : Span) :
    (content.withSpan span).span = span := by
  cases content <;> rfl

@[simp]
theorem inner_withSpan (content : Content) (span : Span) :
    (content.withSpan span).inner = content.inner := by
  cases content <;> rfl

@[simp]
theorem isBare_withSpan (content : Content) (span : Span) :
    (content.withSpan span).isBare = content.isBare := by
  cases content <;> rfl

theorem Placeable.spanned (placeable : content.Placeable Known) (known : Known span) :
    (content.spanned span).Spanned Known := by
  obtain ⟨own, kind, below⟩ := placeable
  rw [spanned_iff, Content.spanned, span_withSpan, inner_withSpan, isBare_withSpan]
  refine ⟨?_, kind, below⟩
  rcases own with detached | own
  · rw [detached]
    exact known
  · cases here : content.span with
    | detached => exact known
    | numbered file number =>
        rw [here] at own
        exact own

theorem spanned_plain (written : String) (known : Known span) :
    (plain written span).Spanned Known :=
  spanned_iff.mpr ⟨known, rfl, by simp [plain, inner]⟩

theorem spanned_text {written : String} {isUpright limits : Bool} (known : Known span) :
    (text written isUpright limits span).Spanned Known :=
  spanned_iff.mpr ⟨known, rfl, by simp [inner]⟩

theorem spanned_sequence {children : List Content} (known : Known span)
    (spanned : ∀ child ∈ children, child.Spanned Known) :
    (sequence children span).Spanned Known :=
  spanned_iff.mpr ⟨known, rfl, spanned⟩

end Content

namespace Outcome

variable {ρ ε α β : Type} {P : α → Prop} {Q : β → Prop}

def Yields (P : α → Prop) (outcome : Outcome ρ ε α) : Prop :=
  ∀ value, outcome.result = .ok value → P value

theorem yields_pure {value : α} (holds : P value) : Yields P (pure value : Outcome ρ ε α) := by
  rintro other ⟨⟩
  exact holds

theorem yields_stop (reason : ε) : Yields P (stop reason : Outcome ρ ε α) := by
  rintro value ⟨⟩

theorem Yields.bind {first : Outcome ρ ε α} {next : α → Outcome ρ ε β} (yields : Yields P first)
    (later : ∀ value, P value → Yields Q (next value)) : Yields Q (first >>= next) := by
  intro result made
  change (Outcome.bind first next).result = .ok result at made
  unfold Outcome.bind at made
  split at made
  · rename_i value given
    exact later value (yields value given) result made
  · cases made

end Outcome

end EquationMap
