import EquationMap.Geometry.Length
import Mathlib.Data.Prod.Lex
import Mathlib.Order.Bounds.Defs

namespace EquationMap

open Float.Model

namespace Length

/-! The comparison of lengths. Every length that is not NaN has a place in a linear order, in
which the two zeros share one, and two lengths compare as their places do. -/

/-- By sign first, then by exponent and mantissa, which grow away from zero. -/
def placeOf? : UnpackedFloat → Option (Int ×ₗ Int ×ₗ Int)
  | .notANumber => none
  | .infinity .negative => some (toLex (-2, toLex (0, 0)))
  | .finite .negative mantissa exponent _ => some (toLex (-1, toLex (-exponent, -mantissa)))
  | .zero _ => some (toLex (0, toLex (0, 0)))
  | .finite .positive mantissa exponent _ => some (toLex (1, toLex (exponent, mantissa)))
  | .infinity .positive => some (toLex (2, toLex (0, 0)))

theorem compare_lt_iff (a b : UnpackedFloat) :
    a.compare b = some .lt ↔ ∃ r ∈ placeOf? a, ∃ s ∈ placeOf? b, r < s := by
  have signs : compare UnpackedFloat.Sign.negative .positive = .lt := rfl
  rcases a with (_ | _) | _ | (_ | _) | ⟨_ | _, m, e, _⟩ <;>
    rcases b with (_ | _) | _ | (_ | _) | ⟨_ | _, n, f, _⟩ <;>
    dsimp only [placeOf?, UnpackedFloat.compare] <;>
    simp [Prod.Lex.toLex_lt_toLex, Ordering.then_eq_lt, Ordering.then_eq_gt, Int.compare_eq_lt,
      Int.compare_eq_gt, Nat.compare_eq_lt, Nat.compare_eq_gt, signs]

theorem compare_eq_iff (a b : UnpackedFloat) :
    a.compare b = some .eq ↔ ∃ r ∈ placeOf? a, r ∈ placeOf? b := by
  have negative : compare UnpackedFloat.Sign.negative .negative = .eq := rfl
  have positive : compare UnpackedFloat.Sign.positive .positive = .eq := rfl
  have signs : compare UnpackedFloat.Sign.negative .positive = .lt := rfl
  rcases a with (_ | _) | _ | (_ | _) | ⟨_ | _, m, e, _⟩ <;>
    rcases b with (_ | _) | _ | (_ | _) | ⟨_ | _, n, f, _⟩ <;>
    dsimp only [placeOf?, UnpackedFloat.compare] <;>
    simp [negative, positive, signs] <;>
    omega

def place? (a : Float) : Option (Int ×ₗ Int ×ₗ Int) :=
  placeOf? a.toModel.unpack

variable {a b c : Float}

theorem lt_iff : a < b ↔ ∃ r ∈ place? a, ∃ s ∈ place? b, r < s := by
  refine decide_eq_true_iff.trans ?_
  change (a.toModel.unpack.compare b.toModel.unpack == some .lt) = true ↔ _
  rw [beq_iff_eq]
  exact compare_lt_iff _ _

theorem beq_iff : (a == b) = true ↔ ∃ r ∈ place? a, r ∈ place? b := by
  change (a.toModel.unpack.compare b.toModel.unpack == some .eq) = true ↔ _
  rw [beq_iff_eq]
  exact compare_eq_iff _ _

theorem le_iff : a ≤ b ↔ ∃ r ∈ place? a, ∃ s ∈ place? b, r ≤ s := by
  refine decide_eq_true_iff.trans ?_
  change (a.toModel.unpack.compare b.toModel.unpack).any (·.isLE) = true ↔ _
  have split : (a.toModel.unpack.compare b.toModel.unpack).any (·.isLE) = true ↔
      a.toModel.unpack.compare b.toModel.unpack = some .lt ∨
        a.toModel.unpack.compare b.toModel.unpack = some .eq := by
    rcases a.toModel.unpack.compare b.toModel.unpack with _ | _ | _ | _ <;> simp
  rw [split, compare_lt_iff, compare_eq_iff]
  constructor
  · rintro (⟨r, here, s, there, less⟩ | ⟨r, here, there⟩)
    · exact ⟨r, here, s, there, less.le⟩
    · exact ⟨r, here, r, there, le_rfl⟩
  · rintro ⟨r, here, s, there, atMost⟩
    rcases atMost.lt_or_eq with less | rfl
    · exact .inl ⟨r, here, s, there, less⟩
    · exact .inr ⟨r, here, there⟩

theorem exists_place (number : a.isNaN = false) : ∃ r, r ∈ place? a := by
  change a.toModel.unpack.isNaN = false at number
  unfold place?
  cases unpacked : a.toModel.unpack with
  | notANumber =>
      rw [unpacked] at number
      cases number
  | infinity sign => cases sign <;> exact ⟨_, rfl⟩
  | zero sign => exact ⟨_, rfl⟩
  | finite sign mantissa exponent nonzero => cases sign <;> exact ⟨_, rfl⟩

theorem not_lt_self : ¬ a < a := by
  rw [lt_iff]
  rintro ⟨r, here, s, there, less⟩
  rw [Option.mem_unique here there] at less
  exact lt_irrefl s less

theorem lt_of_lt_of_lt (first : a < b) (second : b < c) : a < c := by
  obtain ⟨r, here, s, there, less⟩ := lt_iff.mp first
  obtain ⟨s', there', t, beyond, less'⟩ := lt_iff.mp second
  rw [Option.mem_unique there' there] at less'
  exact lt_iff.mpr ⟨r, here, t, beyond, less.trans less'⟩

theorem le_of_le_of_le (first : a ≤ b) (second : b ≤ c) : a ≤ c := by
  obtain ⟨r, here, s, there, atMost⟩ := le_iff.mp first
  obtain ⟨s', there', t, beyond, atMost'⟩ := le_iff.mp second
  rw [Option.mem_unique there' there] at atMost'
  exact le_iff.mpr ⟨r, here, t, beyond, atMost.trans atMost'⟩

theorem le_of_lt (less : a < b) : a ≤ b := by
  obtain ⟨r, here, s, there, less⟩ := lt_iff.mp less
  exact le_iff.mpr ⟨r, here, s, there, less.le⟩

theorem beq_of_le_of_le (first : a ≤ b) (second : b ≤ a) : (a == b) = true := by
  obtain ⟨r, here, s, there, atMost⟩ := le_iff.mp first
  obtain ⟨s', there', r', here', atMost'⟩ := le_iff.mp second
  rw [Option.mem_unique there' there, Option.mem_unique here' here] at atMost'
  rw [atMost'.antisymm atMost] at there
  exact beq_iff.mpr ⟨r, here, there⟩

theorem le_of_not_lt (left : a.isNaN = false) (right : b.isNaN = false) (less : ¬ b < a) :
    a ≤ b := by
  obtain ⟨r, here⟩ := exists_place left
  obtain ⟨s, there⟩ := exists_place right
  refine le_iff.mpr ⟨r, here, s, there, not_lt.mp fun below => less ?_⟩
  exact lt_iff.mpr ⟨s, there, r, here, below⟩

theorem le_self (number : a.isNaN = false) : a ≤ a :=
  le_of_not_lt number number not_lt_self

/-- A choice between two that bounds both, made along a list, is one of the list and bounds
all of it. -/
theorem foldl_choice (choose : Float → Float → Float) (bounds : Float → Float → Prop)
    (either : ∀ a b, choose a b = a ∨ choose a b = b)
    (both : ∀ {a b}, a.isNaN = false → b.isNaN = false →
      bounds (choose a b) a ∧ bounds (choose a b) b)
    (refl : ∀ {a}, a.isNaN = false → bounds a a)
    (trans : ∀ {a b c}, bounds a b → bounds b c → bounds a c) :
    ∀ (rest : List Float) (first : Float), (∀ a ∈ first :: rest, a.isNaN = false) →
      rest.foldl choose first ∈ first :: rest ∧
        ∀ a ∈ first :: rest, bounds (rest.foldl choose first) a := by
  intro rest
  induction rest with
  | nil =>
      intro first numbers
      refine ⟨List.mem_singleton_self first, fun a member => ?_⟩
      rw [List.mem_singleton.mp member]
      exact refl (numbers first (List.mem_singleton_self first))
  | cons second rest induction =>
      intro first numbers
      obtain ⟨number, later⟩ := List.forall_mem_cons.mp numbers
      obtain ⟨number', later⟩ := List.forall_mem_cons.mp later
      have chosen : (choose first second).isNaN = false := by
        rcases either first second with same | same
        · rwa [same]
        · rwa [same]
      obtain ⟨member, bound⟩ :=
        induction (choose first second) (List.forall_mem_cons.mpr ⟨chosen, later⟩)
      obtain ⟨atFirst, atRest⟩ := List.forall_mem_cons.mp bound
      obtain ⟨onFirst, onSecond⟩ := both number number'
      rw [List.foldl_cons]
      constructor
      · rcases List.mem_cons.mp member with here | there
        · rw [here]
          rcases either first second with same | same <;> simp [same]
        · exact List.mem_cons_of_mem _ (List.mem_cons_of_mem _ there)
      · refine List.forall_mem_cons.mpr ⟨trans atFirst onFirst, ?_⟩
        exact List.forall_mem_cons.mpr ⟨trans atFirst onSecond, atRest⟩

theorem min_eq_or (a b : Float) :
    Length.min a b = a ∧ ¬ b < a ∨ Length.min a b = b ∧ b < a := by
  unfold Length.min
  split
  case isTrue less => exact .inr ⟨rfl, of_decide_eq_true less⟩
  case isFalse less => exact .inl ⟨rfl, fun below => less (decide_eq_true below)⟩

theorem max_eq_or (a b : Float) :
    Length.max a b = a ∧ ¬ a < b ∨ Length.max a b = b ∧ a < b := by
  unfold Length.max
  split
  case isTrue less => exact .inr ⟨rfl, of_decide_eq_true less⟩
  case isFalse less => exact .inl ⟨rfl, fun below => less (decide_eq_true below)⟩

theorem isLeast_foldl_min (first : Float) (rest : List Float)
    (numbers : ∀ a ∈ first :: rest, a.isNaN = false) :
    IsLeast { a | a ∈ first :: rest } (rest.foldl Length.min first) := by
  refine foldl_choice Length.min (fun a b => a ≤ b) ?_ ?_ le_self le_of_le_of_le rest first
    numbers
  · intro a b
    exact (min_eq_or a b).imp And.left And.left
  · intro a b left right
    rcases min_eq_or a b with ⟨same, notLess⟩ | ⟨same, less⟩
    · rw [same]
      exact ⟨le_self left, le_of_not_lt left right notLess⟩
    · rw [same]
      exact ⟨le_of_lt less, le_self right⟩

theorem isGreatest_foldl_max (first : Float) (rest : List Float)
    (numbers : ∀ a ∈ first :: rest, a.isNaN = false) :
    IsGreatest { a | a ∈ first :: rest } (rest.foldl Length.max first) := by
  refine foldl_choice Length.max (fun a b => b ≤ a) ?_ ?_ le_self
    (fun first second => le_of_le_of_le second first) rest first numbers
  · intro a b
    exact (max_eq_or a b).imp And.left And.left
  · intro a b left right
    rcases max_eq_or a b with ⟨same, notLess⟩ | ⟨same, less⟩
    · rw [same]
      exact ⟨le_self left, le_of_not_lt right left notLess⟩
    · rw [same]
      exact ⟨le_of_lt less, le_self right⟩

def Same (a b : Float) : Prop :=
  a = b ∨ (a == b) = true

def Alike (a b : UnpackedFloat) : Prop :=
  a = b ∨ ∃ s t, a = .zero s ∧ b = .zero t

theorem alike_of_compare {a b : UnpackedFloat} (equal : a.compare b = some .eq) :
    Alike a b := by
  -- numbers that are neither zero nor infinite are equal only if their parts are
  rcases a with (_ | _) | _ | (_ | _) | ⟨_ | _, m, e, _⟩ <;>
    rcases b with (_ | _) | _ | (_ | _) | ⟨_ | _, n, f, _⟩ <;>
    dsimp only [UnpackedFloat.compare] at equal <;>
    first
    | exact .inl rfl
    | exact .inr ⟨_, _, rfl, rfl⟩
    | cases equal
    | obtain ⟨rfl, rfl⟩ : e = f ∧ m = n := by simpa using equal
      exact .inl rfl

theorem alike_sub {a a' b b' : UnpackedFloat} (format : Format) (left : Alike a a')
    (right : Alike b b') : Alike (a.sub format b) (a'.sub format b') := by
  rcases left with rfl | ⟨s, t, rfl, rfl⟩ <;> rcases right with rfl | ⟨s', t', rfl, rfl⟩
  · exact .inl rfl
  · cases a with
    | zero s => cases s <;> cases s' <;> cases t' <;> exact .inr ⟨_, _, rfl, rfl⟩
    | notANumber => exact .inl rfl
    | infinity s => exact .inl rfl
    | finite s m e positive => exact .inl rfl
  · cases b with
    | zero s' => cases s <;> cases t <;> cases s' <;> exact .inr ⟨_, _, rfl, rfl⟩
    | notANumber => exact .inl rfl
    | infinity s' => exact .inl rfl
    | finite s' m e positive => exact .inl rfl
  · cases s <;> cases t <;> cases s' <;> cases t' <;> exact .inr ⟨_, _, rfl, rfl⟩

theorem same_of_alike {a b : UnpackedFloat} (alike : Alike a b) :
    Same (.ofModel (pack a)) (.ofModel (pack b)) := by
  rcases alike with rfl | ⟨s, t, rfl, rfl⟩
  · exact .inl rfl
  · refine .inr ?_
    cases s <;> cases t <;> rfl

theorem same_sub {a' b' : Float} (left : (a == a') = true) (right : (b == b') = true) :
    Same (a - b) (a' - b') := by
  have alike {c d : Float} (equal : (c == d) = true) :
      Alike c.toModel.unpack d.toModel.unpack := alike_of_compare (beq_iff_eq.mp equal)
  exact same_of_alike (alike_sub .binary64 (alike left) (alike right))

end Length
end EquationMap
