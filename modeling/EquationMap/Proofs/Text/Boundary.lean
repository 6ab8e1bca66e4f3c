import EquationMap.Text.Utf8

namespace EquationMap.Text

/-- Whether an offset lies before, between or after the characters of a text. -/
def IsBoundary (text : List Char) (offset : Nat) : Prop :=
  ∃ head, head <+: text ∧ byteLength head = offset

theorem isBoundary_of_append (before after : List Char) :
    IsBoundary (before ++ after) (byteLength before) :=
  ⟨before, List.prefix_append before after, rfl⟩

theorem isBoundary_zero (text : List Char) : IsBoundary text 0 :=
  ⟨[], List.nil_prefix, rfl⟩

theorem isBoundary_end (text : List Char) : IsBoundary text (byteLength text) :=
  ⟨text, List.prefix_rfl, rfl⟩

theorem byteLength_pos {text : List Char} (nonempty : text ≠ []) : 0 < byteLength text := by
  cases text with
  | nil => contradiction
  | cons c rest =>
      have := c.utf8Size_pos
      simp only [byteLength_cons]
      omega

private theorem sliceFrom_before (start stop : Nat) (rest : List Char) :
    ∀ (before : List Char) (position : Nat), position + byteLength before ≤ start →
      sliceFrom start stop position (before ++ rest) =
        sliceFrom start stop (position + byteLength before) rest
  | [], _, _ => rfl
  | c :: before, position, bound => by
      simp only [byteLength_cons] at bound
      have severed : keptOf start stop position c = [] := by
        simp only [keptOf]
        rw [if_pos (by omega)]
      simp only [List.cons_append, sliceFrom, severed, List.nil_append, byteLength_cons]
      rw [sliceFrom_before start stop rest before (position + c.utf8Size) (by omega),
        Nat.add_assoc]

private theorem sliceFrom_within (start stop : Nat) (rest : List Char) :
    ∀ (piece : List Char) (position : Nat), start ≤ position →
      position + byteLength piece ≤ stop →
        sliceFrom start stop position (piece ++ rest) =
          piece ++ sliceFrom start stop (position + byteLength piece) rest
  | [], _, _, _ => rfl
  | c :: piece, position, hstart, hstop => by
      have := c.utf8Size_pos
      simp only [byteLength_cons] at hstop
      have kept : keptOf start stop position c = [c] := by
        simp only [keptOf]
        rw [if_neg (by omega), if_neg (by omega), if_neg (by omega)]
      simp only [List.cons_append, sliceFrom, kept, List.nil_append, byteLength_cons]
      rw [sliceFrom_within start stop rest piece (position + c.utf8Size) (by omega) (by omega),
        Nat.add_assoc]

private theorem sliceFrom_after (start stop : Nat) :
    ∀ (after : List Char) (position : Nat), stop ≤ position →
      sliceFrom start stop position after = []
  | [], _, _ => rfl
  | c :: after, position, bound => by
      have severed : keptOf start stop position c = [] := by
        simp only [keptOf]
        rw [if_pos (by omega)]
      simp only [sliceFrom, severed, List.nil_append]
      exact sliceFrom_after start stop after (position + c.utf8Size) (by omega)

theorem slice_of_append (before piece after : List Char) :
    slice (before ++ piece ++ after) (byteLength before)
      (byteLength before + byteLength piece) = piece := by
  unfold slice
  rw [List.append_assoc, sliceFrom_before _ _ _ before 0 (by omega), Nat.zero_add,
    sliceFrom_within _ _ _ piece _ (Nat.le_refl _) (Nat.le_refl _),
    sliceFrom_after _ _ after _ (Nat.le_refl _), List.append_nil]

theorem takeWhole_prefix (bytes : Nat) (text : List Char) : takeWhole bytes text <+: text := by
  induction text generalizing bytes with
  | nil => exact List.nil_prefix
  | cons c rest ih =>
      rw [takeWhole]
      split
      · exact (List.prefix_cons_inj c).mpr (ih _)
      · exact List.nil_prefix

theorem byteLength_takeWhole_le (bytes : Nat) (text : List Char) :
    byteLength (takeWhole bytes text) ≤ bytes := by
  induction text generalizing bytes with
  | nil => exact Nat.zero_le bytes
  | cons c rest ih =>
      rw [takeWhole]
      split
      · have := ih (bytes - c.utf8Size)
        rw [byteLength_cons]
        omega
      · exact Nat.zero_le bytes

theorem prefix_takeWhole {bytes : Nat} {text head : List Char} (isPrefix : head <+: text)
    (le : byteLength head ≤ bytes) : head <+: takeWhole bytes text := by
  induction text generalizing bytes head with
  | nil => exact isPrefix
  | cons c rest ih =>
      cases head with
      | nil => exact List.nil_prefix
      | cons d head =>
          obtain ⟨rfl, shorter⟩ := List.cons_prefix_cons.mp isPrefix
          rw [byteLength_cons] at le
          rw [takeWhole, if_pos (by omega), List.prefix_cons_inj]
          exact ih shorter (by omega)

end EquationMap.Text
