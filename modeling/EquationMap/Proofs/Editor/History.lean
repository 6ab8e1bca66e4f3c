import EquationMap.Editor.Session
import Mathlib.Data.List.Induction

namespace EquationMap

/-! What a hover shows after any history of a session: the innermost subexpression of the text
that the document was given last. -/

namespace Entries

variable {α : Type} {entries : Entries α} {key other : String} {value : α}

theorem get?_put_self (entries : Entries α) (key : String) (value : α) :
    (entries.put key value).get? key = some value := by
  induction entries with
  | nil => simp [put, get?]
  | cons entry rest ih =>
      unfold get? at ih ⊢
      rw [put]
      split
      · simp
      · rename_i different
        rw [List.lookup_cons, beq_eq_false_iff_ne.mpr (Ne.symm different)]
        exact ih

theorem get?_put_of_ne (different : other ≠ key) (entries : Entries α) (value : α) :
    (entries.put key value).get? other = entries.get? other := by
  have absent : (other == key) = false := beq_eq_false_iff_ne.mpr different
  induction entries with
  | nil => simp [put, get?, different]
  | cons entry rest ih =>
      unfold get? at ih ⊢
      rw [put]
      split
      · rename_i same
        rw [List.lookup_cons, List.lookup_cons, same, absent]
      · rw [List.lookup_cons, List.lookup_cons, ih]

theorem get?_remove_self (entries : Entries α) (key : String) :
    get? (remove key entries) key = none := by
  unfold get? remove
  rw [List.lookup_eq_none_iff]
  intro entry member
  have different : entry.1 ≠ key := by simpa using (List.mem_filter.mp member).2
  exact bne_iff_ne.mpr (Ne.symm different)

theorem get?_remove_of_ne (different : other ≠ key) (entries : Entries α) :
    get? (remove key entries) other = entries.get? other := by
  unfold get? remove
  induction entries with
  | nil => rfl
  | cons entry rest ih =>
      rw [List.filter_cons]
      split
      · rw [List.lookup_cons, List.lookup_cons, ih]
      · rename_i removed
        have same : entry.1 = key := by simpa using removed
        rw [ih, List.lookup_cons, same, beq_eq_false_iff_ne.mpr different]

end Entries

theorem ByteRange.touches_iff {range : ByteRange} {offset : Nat} :
    range.touches offset = true ↔ range.start ≤ offset ∧ offset ≤ range.stop := by
  simp [touches]

namespace Subexpression

variable {α : Type} {offset : Nat} {records : List (Subexpression α)} {record : Subexpression α}

/-- Whether a record is the first of the shortest ones at an offset, or ending there. -/
def IsInnermost (offset : Nat) (records : List (Subexpression α)) (record : Subexpression α) :
    Prop :=
  ∃ before later, records = before ++ record :: later ∧
    (record.range.start ≤ offset ∧ offset ≤ record.range.stop) ∧
    (∀ other ∈ before, other.range.start ≤ offset ∧ offset ≤ other.range.stop →
      record.range.length < other.range.length) ∧
    ∀ other ∈ later, other.range.start ≤ offset ∧ offset ≤ other.range.stop →
      record.range.length ≤ other.range.length

theorem innermost?_eq_none [Length α] :
    innermost? offset records = none ↔
      ∀ record ∈ records, ¬(record.range.start ≤ offset ∧ offset ≤ record.range.stop) := by
  induction records with
  | nil => simp [innermost?]
  | cons record rest ih =>
      rw [innermost?, List.forall_mem_cons, ← ih, ← ByteRange.touches_iff]
      cases innermost? offset rest with
      | none => simp
      | some other =>
          simp only [reduceCtorEq, and_false, iff_false]
          split <;> exact Option.some_ne_none _

theorem isInnermost_of_innermost? [Length α] (found : innermost? offset records = some record) :
    IsInnermost offset records record := by
  -- From the last record on: an earlier one takes the place of a later one that is not shorter.
  induction records generalizing record with
  | nil => cases found
  | cons first rest ih =>
      rw [innermost?] at found
      cases later : innermost? offset rest with
      | none =>
          rw [later] at found
          have untouched := innermost?_eq_none.mp later
          have touched : first.range.touches offset = true ∧ first = record := by
            simpa using found
          obtain ⟨touched, rfl⟩ := touched
          exact ⟨[], rest, rfl, ByteRange.touches_iff.mp touched, by simp,
            fun other member touches => absurd touches (untouched other member)⟩
      | some shortest =>
          rw [later] at found
          obtain ⟨before, after, rfl, touched, longer, noShorter⟩ := ih later
          dsimp only at found
          split at found
          · rename_i shorter
            cases found
            refine ⟨[], _, rfl, ByteRange.touches_iff.mp shorter.1, by simp, ?_⟩
            intro other member touches
            rcases List.mem_append.mp member with earlier | here
            · exact Nat.le_trans shorter.2 (Nat.le_of_lt (longer other earlier touches))
            · rcases List.mem_cons.mp here with rfl | afterwards
              · exact shorter.2
              · exact Nat.le_trans shorter.2 (noShorter other afterwards touches)
          · rename_i notShorter
            cases found
            refine ⟨first :: before, after, rfl, touched, ?_, noShorter⟩
            refine List.forall_mem_cons.mpr ⟨fun touches => ?_, longer⟩
            exact Nat.lt_of_not_le fun shorter =>
              notShorter ⟨ByteRange.touches_iff.mpr touches, shorter⟩

theorem IsInnermost.unique {other : Subexpression α} (one : IsInnermost offset records record)
    (two : IsInnermost offset records other) : record = other := by
  obtain ⟨before, later, rfl, touched, longer, noShorter⟩ := one
  obtain ⟨before', later', same, touched', longer', noShorter'⟩ := two
  rcases List.append_eq_append_iff.mp same with ⟨between, rfl, tail⟩ | ⟨between, rfl, tail⟩
  · cases between with
    | nil => exact (List.cons.inj tail).1
    | cons first rest =>
        obtain ⟨rfl, rfl⟩ := List.cons.inj tail
        have less := longer' record (by simp) touched
        have atLeast := noShorter other (by simp) touched'
        omega
  · cases between with
    | nil => exact (List.cons.inj tail).1.symm
    | cons first rest =>
        obtain ⟨rfl, rfl⟩ := List.cons.inj tail
        have less := longer other (by simp) touched'
        have atLeast := noShorter' record (by simp) touched
        omega

theorem innermost?_eq_some [Length α] :
    innermost? offset records = some record ↔ IsInnermost offset records record := by
  refine ⟨isInnermost_of_innermost?, fun innermost => ?_⟩
  cases found : innermost? offset records with
  | none =>
      obtain ⟨before, later, rfl, touched, -⟩ := innermost
      exact absurd touched (innermost?_eq_none.mp found record (by simp))
  | some other => rw [innermost.unique (isInnermost_of_innermost? found)]

end Subexpression

namespace Editor

/-- What an editor tells or asks a session. -/
inductive Step where
  | openText (name text : String)
  | change (name : String) (texts : List String)
  | close (name : String)
  | hover (name : String) (position : Position)

namespace Step

/-- The text that a step leaves a document with, or none if the step closes it. Steps on other
documents, and those that only ask, say nothing of it. -/
def settles? (name : String) : Step → Option (Option String)
  | openText other text => if other = name then some (some text) else none
  | change other texts => if other = name then some (some (texts.getLastD "")) else none
  | close other => if other = name then some none else none
  | hover _ _ => none

/-- The text that a document was given last, unless it has been closed since. -/
def latest? (name : String) (steps : List Step) : Option String :=
  (steps.reverse.findSome? (settles? name)).join

end Step

namespace Session

def step (session : Session) : Step → Session
  | .openText name text => session.openText name text
  | .change name texts => session.change name texts
  | .close name => session.close name
  | .hover _ _ => session

/-- The session after these steps, if no document was open before them. -/
def after (steps : List Step) : Session :=
  steps.foldl step []

theorem get?_step (session : Session) (taken : Step) (name : String) :
    (session.step taken).get? name =
      match taken.settles? name with
      | some text => text.map Document.ofText
      | none => session.get? name := by
  cases taken with
  | openText other text =>
      by_cases same : other = name
      · simp [step, openText, Step.settles?, same, Entries.get?_put_self]
      · simp [step, openText, Step.settles?, same, Entries.get?_put_of_ne (Ne.symm same)]
  | change other texts =>
      by_cases same : other = name
      · simp [step, change, openText, Step.settles?, same, Entries.get?_put_self]
      · simp [step, change, openText, Step.settles?, same,
          Entries.get?_put_of_ne (Ne.symm same)]
  | close other =>
      by_cases same : other = name
      · simp [step, close, Step.settles?, same, Entries.get?_remove_self]
      · simp [step, close, Step.settles?, same, Entries.get?_remove_of_ne (Ne.symm same)]
  | hover other position => rfl

theorem get?_after (steps : List Step) (name : String) :
    (after steps).get? name = (Step.latest? name steps).map Document.ofText := by
  induction steps using List.reverseRecOn with
  | nil => rfl
  | append_singleton steps last ih =>
      have stepped : after (steps ++ [last]) = (after steps).step last := by
        simp [after, List.foldl_append]
      rw [stepped, get?_step, Step.latest?, List.reverse_concat, List.findSome?_cons]
      cases last.settles? name with
      | none => exact ih
      | some text => rfl

end Session

namespace Document

theorem hover_ofText (text : String) (position : Position) :
    (ofText text).hover position =
      match render text with
      | .ok rendering =>
          (Subexpression.innermost? (position.offset text) rendering.subexpressions).map
            fun record => ⟨describe record, .ofRange text record.range⟩
      | .error _ => none := by
  unfold hover ofText
  cases render text <;> rfl

end Document

namespace Session

theorem hover_after (steps : List Step) (name : String) (position : Position) :
    (after steps).hover name position =
      (Step.latest? name steps).bind fun text => (Document.ofText text).hover position := by
  rw [hover, get?_after, Option.bind_map]
  rfl

/-- A hover depends on the latest text of its document alone, and describes the innermost record
of that text at the position; it is empty if there is no such text, record or rendering. -/
theorem hover_shows_innermost (steps : List Step) (name : String) (position : Position) :
    (∀ others, Step.latest? name others = Step.latest? name steps →
      (after others).hover name position = (after steps).hover name position) ∧
    (∀ hover, (after steps).hover name position = some hover ↔
      ∃ text rendering record, Step.latest? name steps = some text ∧
        render text = .ok rendering ∧
        Subexpression.IsInnermost (position.offset text) rendering.subexpressions record ∧
        hover = ⟨describe record, .ofRange text record.range⟩) ∧
    ((after steps).hover name position = none ↔
      ∀ text rendering, Step.latest? name steps = some text → render text = .ok rendering →
        ∀ record ∈ rendering.subexpressions, ¬(record.range.start ≤ position.offset text ∧
          position.offset text ≤ record.range.stop)) := by
  refine ⟨fun others same => by rw [hover_after, hover_after, same], ?_⟩
  rw [hover_after]
  cases Step.latest? name steps with
  | none => simp
  | some text =>
      rw [Option.bind_some, Document.hover_ofText]
      cases rendered : render text with
      | error failure =>
          constructor
          · intro hover
            simp [rendered]
          · refine iff_of_true rfl ?_
            rintro _ rendering ⟨⟩ made
            rw [rendered] at made
            cases made
      | ok rendering =>
          constructor
          · intro hover
            rw [Option.map_eq_some_iff]
            constructor
            · rintro ⟨record, found, rfl⟩
              exact ⟨text, rendering, record, rfl, rendered,
                Subexpression.innermost?_eq_some.mp found, rfl⟩
            · rintro ⟨_, _, record, ⟨⟩, made, innermost, rfl⟩
              rw [rendered] at made
              cases made
              exact ⟨record, Subexpression.innermost?_eq_some.mpr innermost, rfl⟩
          · rw [Option.map_eq_none_iff, Subexpression.innermost?_eq_none]
            constructor
            · rintro untouched _ _ ⟨⟩ made
              rw [rendered] at made
              cases made
              exact untouched
            · intro untouched
              exact untouched text rendering rfl rendered

end Session

end Editor

end EquationMap
