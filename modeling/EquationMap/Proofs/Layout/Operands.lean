import EquationMap.Layout.Atom

namespace EquationMap.AtomClass

/-! Binary operators and their operands in a row of atoms. What is left of the operators after
mending stands between operands, and all others are ordinary. -/

variable {previous : Option AtomClass} {classes : List AtomClass} {index : Nat}

/-- The class before a place of a row that follows another class, or nothing. -/
def leftOf (previous : Option AtomClass) (classes : List AtomClass) : Nat → Option AtomClass
  | 0 => previous
  | index + 1 => classes[index]?

/-- What becomes of a class between its neighbours. -/
def mend (left right : Option AtomClass) (cls : AtomClass) : AtomClass :=
  if cls = bin ∧ ¬(endsOperand left ∧ startsOperand right) then ord else cls

theorem mend_of_ne {left right : Option AtomClass} {cls : AtomClass} (other : cls ≠ bin) :
    mend left right cls = cls :=
  if_neg fun mended => other mended.1

theorem mend_bin_cases (left right : Option AtomClass) :
    mend left right bin = bin ∧ endsOperand left = true ∧ startsOperand right = true ∨
      mend left right bin = ord ∧ ¬(endsOperand left = true ∧ startsOperand right = true) := by
  unfold mend
  split
  · rename_i mended
    exact .inr ⟨rfl, mended.2⟩
  · rename_i kept
    have operands : endsOperand left = true ∧ startsOperand right = true := by simpa using kept
    exact .inl ⟨rfl, operands⟩

theorem endsOperand_iff {left : Option AtomClass} :
    endsOperand left = true ↔ left = some ord ∨ left = some closing := by
  rcases left with _ | (_ | _) <;> decide

theorem startsOperand_iff {right : Option AtomClass} :
    startsOperand right = true ↔
      right = some ord ∨ right = some op ∨ right = some opening ∨ right = some bin := by
  rcases right with _ | (_ | _) <;> decide

theorem fixBinaries_cons (previous : Option AtomClass) (cls : AtomClass)
    (rest : List AtomClass) :
    fixBinaries previous (cls :: rest) =
      mend previous rest.head? cls :: fixBinaries (some (mend previous rest.head? cls)) rest :=
  rfl

theorem getElem?_fixBinaries (previous : Option AtomClass) (classes : List AtomClass)
    (index : Nat) :
    (fixBinaries previous classes)[index]? =
      classes[index]?.map
        (mend (leftOf previous (fixBinaries previous classes) index) classes[index + 1]?) := by
  induction classes generalizing previous index with
  | nil => rfl
  | cons cls rest ih =>
      rw [fixBinaries_cons]
      cases index with
      | zero => simp [leftOf, List.head?_eq_getElem?]
      | succ index =>
          rw [List.getElem?_cons_succ, List.getElem?_cons_succ, ih]
          cases index <;> rfl

theorem length_fixBinaries (previous : Option AtomClass) (classes : List AtomClass) :
    (fixBinaries previous classes).length = classes.length := by
  induction classes generalizing previous with
  | nil => rfl
  | cons cls rest induction => simp [fixBinaries, induction]

theorem fixBinaries_eq_self (operands : ∀ index : Nat, classes[index]? = some bin →
      endsOperand (leftOf previous classes index) = true ∧
        startsOperand classes[index + 1]? = true) :
    fixBinaries previous classes = classes := by
  induction classes generalizing previous with
  | nil => rfl
  | cons cls rest ih =>
      have here : mend previous rest.head? cls = cls := by
        by_cases isBin : cls = bin
        · have sides := operands 0 (congrArg some isBin)
          rw [List.head?_eq_getElem?]
          exact if_neg fun mended => mended.2 sides
        · exact mend_of_ne isBin
      rw [fixBinaries_cons, here, ih]
      intro index isBin
      have sides := operands (index + 1) isBin
      cases index <;> exact sides

theorem getElem?_fixBinaries_of_ne (previous : Option AtomClass) {cls : AtomClass}
    (given : classes[index]? = some cls) (other : cls ≠ bin) :
    (fixBinaries previous classes)[index]? = some cls := by
  rw [getElem?_fixBinaries, given, Option.map_some, mend_of_ne other]

theorem getElem?_fixBinaries_of_bin (previous : Option AtomClass)
    (given : classes[index]? = some bin) :
    let left := leftOf previous (fixBinaries previous classes) index
    let right := classes[index + 1]?
    (fixBinaries previous classes)[index]? = some bin ∧ endsOperand left = true ∧
        startsOperand right = true ∨
      (fixBinaries previous classes)[index]? = some ord ∧
        ¬(endsOperand left = true ∧ startsOperand right = true) := by
  intro left right
  rw [getElem?_fixBinaries, given, Option.map_some, Option.some.injEq, Option.some.injEq]
  exact mend_bin_cases left right

theorem getElem?_of_getElem?_fixBinaries
    (left : (fixBinaries previous classes)[index]? = some bin) : classes[index]? = some bin := by
  cases given : classes[index]? with
  | none =>
      rw [getElem?_fixBinaries, given] at left
      cases left
  | some cls =>
      by_cases isBin : cls = bin
      · rw [isBin]
      · rwa [getElem?_fixBinaries_of_ne previous given isBin] at left

theorem operands_of_fixBinaries (left : (fixBinaries previous classes)[index]? = some bin) :
    endsOperand (leftOf previous (fixBinaries previous classes) index) = true ∧
      ((fixBinaries previous classes)[index + 1]? = some ord ∨
        (fixBinaries previous classes)[index + 1]? = some op ∨
        (fixBinaries previous classes)[index + 1]? = some opening) := by
  have given := getElem?_of_getElem?_fixBinaries left
  rcases getElem?_fixBinaries_of_bin previous given with ⟨-, before, after⟩ | mended
  · refine ⟨before, ?_⟩
    rcases startsOperand_iff.mp after with isOrd | isOp | isOpening | isBin
    · exact .inl (getElem?_fixBinaries_of_ne previous isOrd (by decide))
    · exact .inr (.inl (getElem?_fixBinaries_of_ne previous isOp (by decide)))
    · exact .inr (.inr (getElem?_fixBinaries_of_ne previous isOpening (by decide)))
    · -- The second of two operators has lost its left operand to the first.
      rcases getElem?_fixBinaries_of_bin previous isBin with ⟨-, ends, -⟩ | mended
      · rw [leftOf, left] at ends
        cases ends
      · exact .inl mended.1
  · rw [left] at mended
    cases mended.1

/-- An operator that becomes ordinary lacks an operand on its left as mended or on its right as
given. -/
theorem lacks_operand_of_mended (given : classes[index]? = some bin)
    (mended : (fixBinaries previous classes)[index]? = some ord) :
    leftOf previous (fixBinaries previous classes) index ∈
        [none, some bin, some op, some rel, some opening, some punct] ∨
      classes[index + 1]? ∈ [none, some rel, some closing, some punct] := by
  rcases getElem?_fixBinaries_of_bin previous given with kept | ⟨-, missing⟩
  · rw [kept.1] at mended
    cases mended
  · rcases Decidable.not_and_iff_or_not.mp missing with before | after
    · refine .inl ?_
      revert before
      rcases leftOf previous (fixBinaries previous classes) index with _ | (_ | _) <;> decide
    · refine .inr ?_
      revert after
      rcases classes[index + 1]? with _ | (_ | _) <;> decide

/-- Mending keeps all classes but those of operators without operands on both sides. -/
theorem operators_between_operands (classes : List AtomClass) :
    let fixed := fixBinaries none classes
    fixed.length = classes.length ∧
      (∀ (index : Nat) (cls : AtomClass), classes[index]? = some cls → cls ≠ bin →
        fixed[index]? = some cls) ∧
      (∀ index : Nat, classes[index]? = some bin →
        fixed[index]? = some bin ∨ fixed[index]? = some ord) ∧
      (∀ index : Nat, fixed[index]? = some bin →
        (leftOf none fixed index = some ord ∨ leftOf none fixed index = some closing) ∧
          (fixed[index + 1]? = some ord ∨ fixed[index + 1]? = some op ∨
            fixed[index + 1]? = some opening)) ∧
      fixed.head? ≠ some bin ∧ fixed.getLast? ≠ some bin ∧
      (∀ index : Nat, fixed[index]? = some bin → fixed[index + 1]? ≠ some bin) ∧
      (∀ index : Nat, classes[index]? = some bin → fixed[index]? = some ord →
        leftOf none fixed index ∈
            [none, some bin, some op, some rel, some opening, some punct] ∨
          classes[index + 1]? ∈ [none, some rel, some closing, some punct]) ∧
      fixBinaries none fixed = fixed := by
  intro fixed
  have sides {index : Nat} (left : fixed[index]? = some bin) := operands_of_fixBinaries left
  refine ⟨length_fixBinaries none classes, ?_, ?_, ?_, ?_, ?_, ?_, ?_, ?_⟩
  · intro index cls given other
    exact getElem?_fixBinaries_of_ne none given other
  · intro index given
    exact (getElem?_fixBinaries_of_bin none given).imp And.left And.left
  · intro index left
    exact ⟨endsOperand_iff.mp (sides left).1, (sides left).2⟩
  · intro first
    rw [List.head?_eq_getElem?] at first
    cases (sides first).1
  · intro last
    rw [List.getLast?_eq_getElem?] at last
    have after := (sides last).2
    have beyond : fixed[fixed.length - 1 + 1]? = none :=
      List.getElem?_eq_none (by omega)
    rw [beyond] at after
    simp at after
  · intro index left right
    have after := (sides left).2
    rw [right] at after
    simp at after
  · intro index given mended
    exact lacks_operand_of_mended given mended
  · refine fixBinaries_eq_self fun index left => ⟨(sides left).1, startsOperand_iff.mpr ?_⟩
    rcases (sides left).2 with isOrd | isOp | isOpening
    · exact .inl isOrd
    · exact .inr (.inl isOp)
    · exact .inr (.inr (.inl isOpening))

example : fixBinaries none [bin, ord, bin, bin, ord, bin, rel] =
    [ord, ord, bin, ord, ord, ord, rel] := by
  decide

end EquationMap.AtomClass
