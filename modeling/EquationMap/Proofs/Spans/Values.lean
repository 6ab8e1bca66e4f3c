import EquationMap.Evaluation.Library
import EquationMap.Evaluation.Operator
import EquationMap.Proofs.Display.Writing
import EquationMap.Proofs.Spans.Elements

namespace EquationMap

/-! Content in values. The operators of the library have no span until they are put somewhere;
all other content keeps the spans of the syntax that it came from. -/

variable {Known : Span → Prop}

namespace Value

mutual

def contents : Value → List Content
  | none | auto | bool _ | int _ | float _ _ | str _ | symbol _ _ | func _ => []
  | content shown => [shown]
  | array items => contentsOfItems items
  | dict entries => contentsOfEntries entries

def contentsOfItems : List Value → List Content
  | [] => []
  | item :: rest => item.contents ++ contentsOfItems rest

def contentsOfEntries : List (String × Value) → List Content
  | [] => []
  | (_, value) :: rest => value.contents ++ contentsOfEntries rest

end

theorem contentsOfItems_eq (items : List Value) :
    contentsOfItems items = items.flatMap contents := by
  induction items with
  | nil => rfl
  | cons item rest induction => rw [contentsOfItems, induction, List.flatMap_cons]

theorem contentsOfEntries_eq (entries : List (String × Value)) :
    contentsOfEntries entries = entries.flatMap fun entry => entry.2.contents := by
  induction entries with
  | nil => rfl
  | cons entry rest induction => rw [contentsOfEntries, induction, List.flatMap_cons]

/-- Whether all content in a value can be put somewhere. -/
def Placeable (Known : Span → Prop) (value : Value) : Prop :=
  ∀ shown ∈ value.contents, shown.Placeable Known

theorem placeable_of_no_contents {value : Value} (bare : value.contents = []) :
    value.Placeable Known := by
  intro shown member
  rw [bare] at member
  cases member

theorem placeable_content {shown : Content} :
    (content shown).Placeable Known ↔ shown.Placeable Known := by
  simp [Placeable, contents]

theorem placeable_array {items : List Value} :
    (array items).Placeable Known ↔ ∀ item ∈ items, item.Placeable Known := by
  simp only [Placeable, contents, contentsOfItems_eq, List.mem_flatMap]
  constructor
  · intro all item member shown inside
    exact all shown ⟨item, member, inside⟩
  · rintro each shown ⟨item, member, inside⟩
    exact each item member shown inside

theorem placeable_dict {entries : List (String × Value)} :
    (dict entries).Placeable Known ↔ ∀ entry ∈ entries, entry.2.Placeable Known := by
  simp only [Placeable, contents, contentsOfEntries_eq, List.mem_flatMap]
  constructor
  · intro all entry member shown inside
    exact all shown ⟨entry, member, inside⟩
  · rintro each shown ⟨entry, member, inside⟩
    exact each entry member shown inside

theorem spanned_display {value : Value} {span : Span} {shown : Content}
    (placeable : value.Placeable Known) (known : Known span)
    (shows : value.display span = .ok shown) : shown.Spanned Known := by
  rcases display_cases shows with ⟨made, rfl, rfl⟩ | rfl | ⟨written, upright, limits, rfl⟩
  · exact (placeable_content.mp placeable).spanned known
  · exact Content.spanned_sequence known (by simp)
  · exact Content.spanned_text known

end Value

namespace Entries

variable {α : Type} {P : α → Prop} {entries : Entries α}

theorem all_put {key : String} {value : α} (all : ∀ entry ∈ entries, P entry.2)
    (holds : P value) : ∀ entry ∈ entries.put key value, P entry.2 := by
  induction entries with
  | nil => simpa [put] using holds
  | cons first rest induction =>
      obtain ⟨here, later⟩ := List.forall_mem_cons.mp all
      obtain ⟨other, old⟩ := first
      unfold put
      split
      · exact List.forall_mem_cons.mpr ⟨holds, later⟩
      · exact List.forall_mem_cons.mpr ⟨here, induction later⟩

theorem all_putAll {later : Entries α} (all : ∀ entry ∈ entries, P entry.2)
    (others : ∀ entry ∈ later, P entry.2) : ∀ entry ∈ entries.putAll later, P entry.2 := by
  unfold putAll
  induction later generalizing entries with
  | nil => exact all
  | cons first rest induction =>
      obtain ⟨here, later⟩ := List.forall_mem_cons.mp others
      exact induction (all_put all here) later

theorem of_lookup {key : String} {value : α} (all : ∀ entry ∈ entries, P entry.2)
    (found : entries.lookup key = some value) : P value := by
  induction entries with
  | nil => cases found
  | cons first rest induction =>
      obtain ⟨here, later⟩ := List.forall_mem_cons.mp all
      obtain ⟨other, old⟩ := first
      rw [List.lookup_cons] at found
      split at found
      · cases found
        exact here
      · exact induction later found

end Entries

/-- Whether all content that names stand for can be put somewhere. -/
def Scope.Placeable (Known : Span → Prop) (scope : Scope) : Prop :=
  ∀ level ∈ scope, ∀ entry ∈ level, entry.2.Placeable Known

theorem Scope.Placeable.of_lookup {scope : Scope} {name : String} {value : Value}
    (placeable : scope.Placeable Known) (found : scope.lookup? name = some value) :
    value.Placeable Known := by
  induction scope with
  | nil => cases found
  | cons level outer induction =>
      obtain ⟨here, later⟩ := List.forall_mem_cons.mp placeable
      rw [lookup?] at found
      split at found
      · rename_i other inLevel
        cases found
        exact Entries.of_lookup here inLevel
      · exact induction later found

theorem Library.placeable_entries : ∀ entry ∈ entries, entry.2.Placeable Known := by
  have detached (name : String) (limits : Bool) :
      (Value.content (.op name limits .detached)).Placeable Known :=
    Value.placeable_content.mpr ⟨.inl rfl, rfl, by simp [Content.inner]⟩
  intro entry member
  simp only [entries, List.mem_append, List.mem_map] at member
  rcases member with (((⟨_, _, rfl⟩ | ⟨_, _, rfl⟩) | ⟨name, _, rfl⟩) | ⟨⟨_, text⟩, _, rfl⟩) |
    ⟨_, _, rfl⟩
  · exact Value.placeable_of_no_contents rfl
  · exact Value.placeable_of_no_contents rfl
  · exact detached name false
  · exact detached text true
  · exact Value.placeable_of_no_contents rfl

namespace Evaluation

open Outcome

theorem yields_lift {α : Type} {P : α → Prop} {result : Except NumberFault α}
    (holds : ∀ value, result = .ok value → P value) : Yields P (lift result) := by
  cases result with
  | ok value => exact yields_pure (holds value rfl)
  | error fault => exact yields_stop _

theorem yields_display {value : Value} {span : Span} (placeable : value.Placeable Known)
    (known : Known span) : Yields (Content.Spanned Known) (lift (value.display span)) :=
  yields_lift fun _ => Value.spanned_display placeable known

end Evaluation

namespace BinaryOp

open Outcome

theorem placeable_ofNumber {result : Except NumberFault Number} {span : Span} :
    Yields (Value.Placeable Known) (ofNumber result span) := by
  unfold ofNumber
  split
  · rename_i number
    cases number <;> exact yields_pure (Value.placeable_of_no_contents rfl)
  · exact yields_stop _

theorem eq_of_repeatList {items repeated : List Value} {count : Int}
    (made : Count.repeatList items count = .ok repeated) :
    repeated = (List.replicate count.toNat items).flatten := by
  unfold Count.repeatList at made
  obtain ⟨times, limited, made⟩ := exists_ok_of_bind made
  have same : times = count.toNat := by
    unfold Count.ofInt at limited
    split at limited <;> cases limited
    rfl
  split at made
  · rename_i empty
    cases made
    simp [List.isEmpty_iff.mp empty]
  · obtain ⟨fits, -, made⟩ := exists_ok_of_bind made
    cases made
    rw [same]

variable {left right : Value} {leftSpan rightSpan span : Span}

theorem placeable_add (left_placeable : left.Placeable Known)
    (right_placeable : right.Placeable Known) (left_known : Known leftSpan)
    (right_known : Known rightSpan) (known : Known span) :
    Yields (Value.Placeable Known) (add.apply left right leftSpan rightSpan span) := by
  have shown : Yields (Value.Placeable Known) (do
      let left ← Evaluation.lift (left.display leftSpan)
      let right ← Evaluation.lift (right.display rightSpan)
      return .content (.sequence [left, right] span)) := by
    refine (Evaluation.yields_display left_placeable left_known).bind fun left left_spanned => ?_
    refine (Evaluation.yields_display right_placeable right_known).bind
      fun right right_spanned => ?_
    apply yields_pure
    refine Value.placeable_content.mpr (Content.spanned_sequence known ?_).placeable
    simp [left_spanned, right_spanned]
  unfold apply
  dsimp only
  split
  · exact yields_pure (Value.placeable_of_no_contents rfl)
  · apply yields_pure
    rw [Value.placeable_array] at left_placeable right_placeable ⊢
    intro item member
    rcases List.mem_append.mp member with first | second
    · exact left_placeable item first
    · exact right_placeable item second
  · exact shown
  · exact shown
  · split
    · exact placeable_ofNumber
    · exact yields_stop _

theorem placeable_mul (left_placeable : left.Placeable Known) :
    Yields (Value.Placeable Known) (mul.apply left right leftSpan rightSpan span) := by
  unfold apply
  dsimp only
  split
  · split
    · exact yields_pure (Value.placeable_of_no_contents rfl)
    · exact yields_stop _
  · split
    · rename_i repeated made
      apply yields_pure
      rw [Value.placeable_array] at left_placeable ⊢
      intro item member
      rw [eq_of_repeatList made] at member
      obtain ⟨copy, isCopy, inside⟩ := List.mem_flatten.mp member
      exact left_placeable item ((List.mem_replicate.mp isCopy).2 ▸ inside)
    · exact yields_stop _
  · split
    · exact placeable_ofNumber
    · exact yields_stop _

theorem placeable_apply (op : BinaryOp) (left_placeable : left.Placeable Known)
    (right_placeable : right.Placeable Known) (left_known : Known leftSpan)
    (right_known : Known rightSpan) (known : Known span) :
    Yields (Value.Placeable Known) (op.apply left right leftSpan rightSpan span) := by
  have truth (value : Bool) : (Value.bool value).Placeable Known :=
    Value.placeable_of_no_contents rfl
  cases op with
  | add => exact placeable_add left_placeable right_placeable left_known right_known known
  | mul => exact placeable_mul left_placeable
  | eq | ne => exact yields_pure (truth _)
  | lt | le | gt | ge =>
      unfold apply
      dsimp only
      split
      · exact yields_pure (truth _)
      · exact yields_stop _
  | sub =>
      unfold apply
      dsimp only
      split
      · exact placeable_ofNumber
      · exact yields_stop _
  | div =>
      unfold apply
      dsimp only
      split
      · split
        · exact yields_stop _
        · exact placeable_ofNumber
      · exact yields_stop _
  | and | or => exact yields_stop _

end BinaryOp

theorem UnaryOp.placeable_apply (op : UnaryOp) {value : Value} {span : Span}
    (placeable : value.Placeable Known) :
    Outcome.Yields (Value.Placeable Known) (op.apply value span) := by
  unfold apply
  split
  · exact Outcome.yields_pure (Value.placeable_of_no_contents rfl)
  · exact Outcome.yields_pure placeable
  · rename_i number _
    cases number <;> exact Outcome.yields_pure (Value.placeable_of_no_contents rfl)
  · exact Outcome.yields_stop _

end EquationMap
