import EquationMap.Editor.Position
import EquationMap.Proofs.Text.Lines
import Mathlib.Algebra.Ring.Nat
import Mathlib.Order.Bounds.Basic

namespace EquationMap.Editor

/-! Offsets and positions invert each other between the characters of a text. Elsewhere an offset
counts as the place before it and a position as the place behind it in its line. -/

open Text

/-- The number of UTF-16 units of a run of characters. -/
def width (text : List Char) : Nat :=
  (text.map units).sum

@[simp] theorem width_nil : width [] = 0 := rfl

@[simp] theorem width_cons (c : Char) (rest : List Char) :
    width (c :: rest) = units c + width rest := rfl

/-- Positions are ordered by their lines, and in a line by their columns. -/
instance : LE Position where
  le first second :=
    first.line < second.line ∨ first.line = second.line ∧ first.character ≤ second.character

theorem Position.le_def {first second : Position} :
    first ≤ second ↔
      first.line < second.line ∨
        first.line = second.line ∧ first.character ≤ second.character :=
  Iff.rfl

namespace Position

theorem le_trans {first second third : Position} (before : first ≤ second)
    (after : second ≤ third) : first ≤ third := by
  rw [le_def] at *
  omega

theorem advance_line (position : Position) {line : List Char} (inner : '\n' ∉ line) :
    position.advance line = ⟨position.line, position.character + width line⟩ := by
  induction line generalizing position with
  | nil => rfl
  | cons c rest ih =>
      obtain ⟨notFeed, inner⟩ := List.ne_and_not_mem_of_not_mem_cons inner
      change (position.next c).advance rest = _
      rw [ih _ inner, next, if_neg notFeed.symm, width_cons, Nat.add_assoc]

theorem advance_opens {before : List Char} (opens : OpensLine before) :
    start.advance before = ⟨before.count '\n', 0⟩ := by
  have general (position : Position) : before ≠ [] →
      position.advance before = ⟨position.line + before.count '\n', 0⟩ := by
    induction before generalizing position with
    | nil => exact fun nonempty => absurd rfl nonempty
    | cons c rest ih =>
        intro _
        change (position.next c).advance rest = _
        by_cases feed : c = '\n'
        · subst feed
          rw [next, if_pos rfl, List.count_cons_self]
          by_cases last : rest = []
          · rw [last]
            rfl
          · rw [ih opens.tail_of_feed _ last]
            congr 1
            simp only
            omega
        · obtain ⟨more, opens⟩ := opens.tail feed
          rw [ih opens _ more, next, if_neg feed, List.count_cons_of_ne feed]
  by_cases first : before = []
  · rw [first]
    rfl
  · rw [general start first]
    simp [start]

end Position

namespace Position

end Position

end EquationMap.Editor
