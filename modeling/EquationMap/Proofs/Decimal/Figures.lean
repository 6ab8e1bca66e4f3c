import EquationMap.Decimal.WrittenForm
import Mathlib.Data.Nat.Digits.Defs

namespace EquationMap.Decimal

/-- Digits, signs and points, and the letters of what is infinite or no number. -/
def IsFigure (c : Char) : Prop :=
  c.isDigit = true ∨ c ∈ ['-', '.', 'i', 'n', 'f', 'a']

instance (c : Char) : Decidable (IsFigure c) :=
  inferInstanceAs (Decidable (_ ∨ _))

theorem isFigure_of_mem_naturalDigits {value : Nat} : ∀ c ∈ naturalDigits value, IsFigure c :=
  fun _ member => .inl (Nat.isDigit_of_mem_toDigits (by decide) (by decide) member)

theorem isFigure_of_mem_digits {count value : Nat} :
    ∀ c ∈ zeros count ++ naturalDigits value, IsFigure c := by
  refine List.forall_mem_append.mpr ⟨fun c member => ?_, isFigure_of_mem_naturalDigits⟩
  rw [List.eq_of_mem_replicate member]
  decide

theorem isFigure_of_mem_signed {negative : Bool} {text : List Char}
    (inText : ∀ c ∈ text, IsFigure c) : ∀ c ∈ signed negative text, IsFigure c := by
  unfold signed
  split
  · exact List.forall_mem_cons.mpr ⟨by decide, inText⟩
  · exact inText

theorem isFigure_of_mem_toFixed {places : Nat} {value : Float} :
    ∀ c ∈ (toFixed places value).toList, IsFigure c := by
  unfold toFixed
  split
  · rename_i notFinite
    unfold toText WrittenForm.write
    rw [notFinite]
    dsimp only
    split_ifs
    · change ∀ c ∈ ['n', 'a', 'n'], IsFigure c
      simp [IsFigure]
    · change ∀ c ∈ ['-', 'i', 'n', 'f'], IsFigure c
      simp [IsFigure]
    · change ∀ c ∈ ['i', 'n', 'f'], IsFigure c
      simp [IsFigure]
  · dsimp only
    rw [String.toList_ofList]
    apply isFigure_of_mem_signed
    split
    · exact isFigure_of_mem_digits
    · refine List.forall_mem_append.mpr ⟨fun c member => ?_, List.forall_mem_cons.mpr
        ⟨by decide, fun c member => ?_⟩⟩
      · exact isFigure_of_mem_digits c (List.mem_of_mem_take member)
      · exact isFigure_of_mem_digits c (List.mem_of_mem_drop member)

theorem not_mem_toFixed {places : Nat} {value : Float} {c : Char} (other : ¬IsFigure c) :
    c ∉ (toFixed places value).toList :=
  fun member => other (isFigure_of_mem_toFixed c member)

end EquationMap.Decimal
