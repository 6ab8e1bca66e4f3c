import EquationMap.Evaluation.Evaluation
import EquationMap.Proofs.Display.Writing
import EquationMap.Proofs.Spans.Elements

namespace EquationMap

theorem Span.orElse_eq {span : Span} (own : span ≠ .detached) (other : Span) :
    span.orElse other = span := by
  cases span with
  | detached => exact absurd rfl own
  | numbered file number => rfl

namespace Content

theorem withSpan_span (content : Content) : content.withSpan content.span = content := by
  cases content <;> rfl

theorem spanned_eq {content : Content} (own : content.span ≠ .detached) (span : Span) :
    content.spanned span = content := by
  rw [spanned, Span.orElse_eq own, withSpan_span]

theorem spanned_self (content : Content) : content.spanned content.span = content := by
  have same : content.span.orElse content.span = content.span := by
    cases content.span <;> rfl
  rw [spanned, same, withSpan_span]

variable {content inner part : Content}

theorem mem_elements_self (content : Content) : content ∈ content.elements := by
  rw [elements_eq]
  exact List.mem_cons_self

theorem elements_of_inner (direct : inner ∈ content.inner) : inner.elements ⊆ content.elements := by
  intro element member
  rw [content.elements_eq]
  exact List.mem_cons_of_mem _ (List.mem_flatMap.mpr ⟨inner, direct, member⟩)

theorem elements_subset (member : part ∈ content.elements) : part.elements ⊆ content.elements := by
  induction content using Content.induction with
  | step content induction =>
      rw [content.elements_eq] at member
      rcases List.mem_cons.mp member with rfl | below
      · exact List.Subset.refl _
      · obtain ⟨inner, direct, inside⟩ := List.mem_flatMap.mp below
        exact List.Subset.trans (induction inner direct inside) (elements_of_inner direct)

end Content

namespace Value

variable {value other : Value} {made inner part shown : Content} {span : Span}

/-- Whether an element is there wherever a value is displayed. -/
def Shows (value : Value) (part : Content) : Prop :=
  ∀ span shown, value.display span = .ok shown → part ∈ shown.elements

/-- Symbols, and content other than a text: what keeps its look in all that is made of it. -/
def Stays : Value → Prop
  | symbol _ _ => True
  | content (.text _ _ _ _) => False
  | content _ => True
  | none | auto | bool _ | int _ | float _ _ | str _ | func _ | array _ | dict _ => False

def Presents (value : Value) (part : Content) : Prop :=
  value.Stays ∧ value.Shows part

theorem Presents.trans (outer : value.Presents shown) (shows : other.display span = .ok shown)
    (presents : other.Presents part) : value.Presents part :=
  ⟨outer.1, fun place whole displayed =>
    Content.elements_subset (outer.2 place whole displayed) (presents.2 span shown shows)⟩

/-- Whether a value presents another one as it is displayed at a span. -/
def Exhibits (value other : Value) (span : Span) : Prop :=
  ∃ shown, other.display span = .ok shown ∧ value.Presents shown

theorem Exhibits.trans (exhibits : value.Exhibits other span) (presents : other.Presents part) :
    value.Presents part := by
  obtain ⟨shown, displayed, outer⟩ := exhibits
  exact outer.trans displayed presents

theorem presents_of_inner (direct : inner ∈ made.inner) (inside : part ∈ inner.elements) :
    (content made).Presents part := by
  constructor
  · cases made with
    | text => cases direct
    | _ => trivial
  · rintro span shown ⟨⟩
    refine Content.elements_of_inner ?_ inside
    rw [Content.spanned, Content.inner_withSpan]
    exact direct

theorem presents_inner (direct : part ∈ made.inner) : (content made).Presents part :=
  presents_of_inner direct part.mem_elements_self

theorem shows_self (own : made.span ≠ .detached) : (content made).Shows made := by
  rintro span shown ⟨⟩
  rw [Content.spanned_eq own]
  exact made.mem_elements_self

theorem span_display_ne (shows : value.display span = .ok shown) (placed : span ≠ .detached) :
    shown.span ≠ .detached := by
  rcases display_cases shows with ⟨made, -, rfl⟩ | rfl | ⟨written, upright, limits, rfl⟩
  · rw [Content.spanned, Content.span_withSpan]
    cases own : made.span with
    | detached => exact placed
    | numbered => exact Span.noConfusion
  · exact placed
  · exact placed

end Value

namespace Outcome

variable {ρ ε α β : Type} {value : α} {result : β}

def Ends (outcome : Outcome ρ ε α) (value : α) : Prop :=
  outcome.reports = [] ∧ outcome.result = .ok value

theorem ends_pure : (pure value : Outcome ρ ε α).Ends value :=
  ⟨rfl, rfl⟩

theorem Ends.eq_of_pure {other : α} (ends : (pure value : Outcome ρ ε α).Ends other) :
    other = value := by
  cases ends.2
  rfl

theorem Ends.bind {first : Outcome ρ ε α} {next : α → Outcome ρ ε β} (ends : first.Ends value)
    (later : (next value).Ends result) : (first >>= next).Ends result := by
  obtain ⟨silent, given⟩ := ends
  change (Outcome.bind first next).Ends result
  unfold Outcome.bind
  rw [given, silent]
  exact later

theorem Ends.of_bind {first : Outcome ρ ε α} {next : α → Outcome ρ ε β}
    (ends : (first >>= next).Ends result) :
    ∃ value, first.Ends value ∧ (next value).Ends result := by
  obtain ⟨silent, made⟩ := ends
  change (Outcome.bind first next).reports = [] at silent
  change (Outcome.bind first next).result = .ok result at made
  unfold Outcome.bind at silent made
  split at made
  · rename_i value given
    rw [given] at silent
    obtain ⟨before, after⟩ := List.append_eq_nil_iff.mp silent
    exact ⟨value, ⟨before, given⟩, after, made⟩
  · cases made

theorem not_ends_stop {reason : ε} : ¬(stop reason : Outcome ρ ε α).Ends value := by
  rintro ⟨-, ⟨⟩⟩

variable {first : Outcome ρ ε α} {next : α → Outcome ρ ε β}

theorem result_bind_of_ok (given : first.result = .ok value) :
    (first >>= next).result = (next value).result := by
  change (Outcome.bind first next).result = _
  unfold Outcome.bind
  rw [given]

theorem result_bind_of_error {reason : ε} (given : first.result = .error reason) :
    (first >>= next).result = .error reason := by
  change (Outcome.bind first next).result = _
  unfold Outcome.bind
  rw [given]

end Outcome

theorem exists_ok_of_any {ε α : Type} {result : Except ε α} {holds : α → Bool}
    (evaluated : result.toOption.any holds = true) :
    ∃ value, result = .ok value ∧ holds value = true := by
  cases result with
  | error => cases evaluated
  | ok value => exact ⟨value, rfl, evaluated⟩

theorem Evaluation.ends_of_lift {α : Type} {result : Except NumberFault α} {value : α}
    (ends : (lift result).Ends value) : result = .ok value := by
  cases result with
  | ok made =>
      rw [Outcome.Ends.eq_of_pure ends]
  | error fault => exact (Outcome.not_ends_stop ends).elim

theorem Evaluation.ends_of_recover {α : Type} {evaluation : Evaluation α} {found : Option α}
    (ends : (recover evaluation).Ends found) :
    ∃ value, found = some value ∧ evaluation.Ends value := by
  obtain ⟨silent, made⟩ := ends
  unfold recover at silent made
  split at made
  · rename_i value given
    rw [given] at silent
    cases made
    exact ⟨value, rfl, silent, given⟩
  · rename_i error given
    rw [given] at silent
    exact absurd silent (List.append_ne_nil_of_right_ne_nil _ (List.cons_ne_nil _ _))
  · cases made

end EquationMap
