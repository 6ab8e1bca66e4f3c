import EquationMap.Proofs.Text.Boundary
import Mathlib.Data.List.Induction

namespace EquationMap.Text

/-! The lines of a text as its line feeds delimit them. A text has one line more than it has line
feeds, and each of its places lies in exactly one line or at the ends of it. -/

def OpensLine (text : List Char) : Prop :=
  text = [] ∨ text.getLast? = some '\n'

def ClosesLine (text : List Char) : Prop :=
  text = [] ∨ text.head? = some '\n'

/-- Whether a text consists of what lies before its line of a number, counted from zero, of that
line and of what lies after it. -/
structure IsLine (text : List Char) (number : Nat) (before line after : List Char) : Prop where
  split : text = before ++ line ++ after
  opens : OpensLine before
  number : before.count '\n' = number
  inner : '\n' ∉ line
  closes : ClosesLine after

theorem OpensLine.tail {c : Char} {rest : List Char} (opens : OpensLine (c :: rest))
    (notFeed : c ≠ '\n') : rest ≠ [] ∧ OpensLine rest := by
  cases rest with
  | nil =>
      rcases opens with none | last
      · cases none
      · exact absurd (Option.some.inj last) notFeed
  | cons d rest =>
      rcases opens with none | last
      · cases none
      · exact ⟨List.cons_ne_nil d rest, .inr last⟩

theorem OpensLine.tail_of_feed {rest : List Char} (opens : OpensLine ('\n' :: rest)) :
    OpensLine rest := by
  cases rest with
  | nil => exact .inl rfl
  | cons d rest =>
      rcases opens with none | last
      · cases none
      · exact .inr last

theorem exists_line (head tail : List Char) :
    ∃ before left right after, head = before ++ left ∧ tail = right ++ after ∧
      IsLine (head ++ tail) (head.count '\n') before (left ++ right) after := by
  -- The line goes back to the last line feed of the head, and on to the first one of the tail.
  have opened : ∃ before left, head = before ++ left ∧ OpensLine before ∧ '\n' ∉ left := by
    induction head using List.reverseRecOn with
    | nil => exact ⟨[], [], rfl, .inl rfl, List.not_mem_nil⟩
    | append_singleton head c ih =>
        by_cases feed : c = '\n'
        · subst feed
          refine ⟨head ++ ['\n'], [], by simp, .inr (by simp), List.not_mem_nil⟩
        · obtain ⟨before, left, rfl, opens, inner⟩ := ih
          refine ⟨before, left ++ [c], by simp, opens, ?_⟩
          simp [inner, Ne.symm feed]
  have closed : ∃ right after, tail = right ++ after ∧ '\n' ∉ right ∧ ClosesLine after := by
    induction tail with
    | nil => exact ⟨[], [], rfl, List.not_mem_nil, .inl rfl⟩
    | cons c tail ih =>
        by_cases feed : c = '\n'
        · subst feed
          exact ⟨[], '\n' :: tail, rfl, List.not_mem_nil, .inr rfl⟩
        · obtain ⟨right, after, rfl, inner, closes⟩ := ih
          refine ⟨c :: right, after, rfl, ?_, closes⟩
          simp [inner, Ne.symm feed]
  obtain ⟨before, left, rfl, opens, left_inner⟩ := opened
  obtain ⟨right, after, rfl, right_inner, closes⟩ := closed
  refine ⟨before, left, right, after, rfl, rfl, by simp, opens, ?_, ?_, closes⟩
  · rw [List.count_append, List.count_eq_zero_of_not_mem left_inner, Nat.add_zero]
  · simp [left_inner, right_inner]

end EquationMap.Text
