import EquationMap.Editor.Document
import EquationMap.Proofs.Decimal.Figures

namespace EquationMap.Editor

open Decimal

/-- A part up to a character, and what comes behind that, are told apart by the character. -/
theorem append_cons_eq_iff {c : Char} {first second rest rest' : List Char} (absent : c ∉ first)
    (absent' : c ∉ second) :
    first ++ c :: rest = second ++ c :: rest' ↔ first = second ∧ rest = rest' := by
  induction first generalizing second with
  | nil =>
      cases second with
      | nil => simp
      | cons d others => simp [(List.ne_and_not_mem_of_not_mem_cons absent').1]
  | cons e inner induction =>
      obtain ⟨different, absent⟩ := List.ne_and_not_mem_of_not_mem_cons absent
      cases second with
      | nil => simp [different.symm]
      | cons d others =>
          have later := induction absent (List.ne_and_not_mem_of_not_mem_cons absent').2
          simp [later, and_assoc]

theorem append_cons_eq_iff_of_last {c : Char} {first second rest rest' : List Char}
    (absent : c ∉ rest) (absent' : c ∉ rest') :
    first ++ c :: rest = second ++ c :: rest' ↔ first = second ∧ rest = rest' := by
  constructor
  · intro same
    have turned : rest.reverse ++ c :: first.reverse = rest'.reverse ++ c :: second.reverse := by
      simpa using congrArg List.reverse same
    obtain ⟨rest_same, first_same⟩ := (append_cons_eq_iff (mt List.mem_reverse.mp absent)
      (mt List.mem_reverse.mp absent')).mp turned
    exact ⟨List.reverse_inj.mp first_same, List.reverse_inj.mp rest_same⟩
  · rintro ⟨rfl, rfl⟩
    rfl

def regionText (record : Subexpression Float) : List Char :=
  "\n\nx: ".toList ++ (toFixed 2 record.x).toList ++ 'p' :: ("t, y: ".toList ++
    (toFixed 2 record.y).toList ++ 'p' :: ("t, ".toList ++ (toFixed 2 record.width).toList ++
      ' ' :: ("× ".toList ++ (toFixed 2 record.height).toList ++ 'p' :: ("t (".toList ++
        naturalDigits record.fragments ++ ' ' :: "fragments)".toList))))

variable {record other : Subexpression Float}

theorem toList_describe :
    (describe record).toList = '`' :: (record.text.toList ++ '`' :: regionText record) := by
  unfold describe regionText naturalDigits
  simp only [String.toList_append, List.append_assoc, Nat.toString_eq_repr, Nat.toList_repr]
  rfl

theorem backquote_not_mem_regionText : '`' ∉ regionText record := by
  have absent (value : Float) : '`' ∉ (toFixed 2 value).toList := not_mem_toFixed (by decide)
  have counted : '`' ∉ naturalDigits record.fragments := fun member =>
    absurd (isFigure_of_mem_naturalDigits _ member) (by decide)
  unfold regionText
  simp only [List.mem_append, List.mem_cons, absent, counted, or_false, not_or]
  decide

theorem naturalDigits_inj {value other : Nat} :
    naturalDigits value = naturalDigits other ↔ value = other := by
  constructor
  · intro same
    have read := congrArg (fun digits => Nat.ofDigitChars 10 digits 0) same
    unfold naturalDigits at read
    rwa [Nat.ofDigitChars_ten_toDigits, Nat.ofDigitChars_ten_toDigits] at read
  · rintro rfl
    rfl

/-- A number after a part that does not change, up to a character that stands in no number. -/
theorem toFixed_eq_of_append {value value' : Float} {lead : List Char} {c : Char}
    {rest rest' : List Char} (notFigure : ¬IsFigure c)
    (same : lead ++ (toFixed 2 value).toList ++ c :: rest =
      lead ++ (toFixed 2 value').toList ++ c :: rest') :
    toFixed 2 value = toFixed 2 value' ∧ rest = rest' := by
  rw [List.append_assoc, List.append_assoc] at same
  obtain ⟨numbers, rests⟩ := (append_cons_eq_iff (not_mem_toFixed notFigure)
    (not_mem_toFixed notFigure)).mp (List.append_cancel_left same)
  exact ⟨String.toList_inj.mp numbers, rests⟩

/-- Subexpressions are described alike if and only if they are of one text, and their regions agree
to two decimal places and in the number of fragments. -/
theorem describe_eq_iff : describe record = describe other ↔
    record.text = other.text ∧ toFixed 2 record.x = toFixed 2 other.x ∧
      toFixed 2 record.y = toFixed 2 other.y ∧ toFixed 2 record.width = toFixed 2 other.width ∧
      toFixed 2 record.height = toFixed 2 other.height ∧ record.fragments = other.fragments := by
  constructor
  · intro same
    have letters := congrArg String.toList same
    rw [toList_describe, toList_describe, List.cons.injEq] at letters
    -- The text ends at the last backquote, and each number at the first letter behind it.
    obtain ⟨text, region⟩ := (append_cons_eq_iff_of_last backquote_not_mem_regionText
      backquote_not_mem_regionText).mp letters.2
    obtain ⟨x, region⟩ := toFixed_eq_of_append (by decide) region
    obtain ⟨y, region⟩ := toFixed_eq_of_append (by decide) region
    obtain ⟨width, region⟩ := toFixed_eq_of_append (by decide) region
    obtain ⟨height, region⟩ := toFixed_eq_of_append (by decide) region
    rw [List.append_assoc, List.append_assoc] at region
    have counts := List.append_cancel_right (List.append_cancel_left region)
    exact ⟨String.toList_inj.mp text, x, y, width, height, naturalDigits_inj.mp counts⟩
  · rintro ⟨text, x, y, width, height, fragments⟩
    rw [← String.toList_inj, toList_describe, toList_describe, text, regionText, regionText, x, y,
      width, height, fragments]

end EquationMap.Editor
