import EquationMap.Proofs.Geometry.Extent
import EquationMap.Proofs.Tree.Nesting
import EquationMap.Subexpression.Record
import Mathlib.Data.List.Forall2

namespace EquationMap

/-- The boxes of the fragments that lie in a range. -/
def boxesWithin {α : Type} (range : ByteRange) (fragments : List (Fragment α)) : List (Box α) :=
  (fragments.filter fun fragment => range.contains fragment.range).map Fragment.box

def ByteRange.holdsFragment {α : Type} (fragments : List (Fragment α)) (range : ByteRange) :
    Bool :=
  fragments.any fun fragment => range.contains fragment.range

theorem boxesWithin_eq_nil_iff {α : Type} {range : ByteRange} {fragments : List (Fragment α)} :
    boxesWithin range fragments = [] ↔ range.holdsFragment fragments = false := by
  simp [boxesWithin, ByteRange.holdsFragment]

theorem boxesWithin_sublist {α : Type} {outer inner : ByteRange}
    (contained : outer.contains inner = true) (fragments : List (Fragment α)) :
    (boxesWithin inner fragments).Sublist (boxesWithin outer fragments) := by
  refine (List.monotone_filter_right fragments ?_).map Fragment.box
  intro fragment within
  exact ByteRange.contains_trans contained within

theorem forall_boxesWithin {α : Type} {holds : Box α → Prop} {fragments : List (Fragment α)}
    (all : ∀ fragment ∈ fragments, holds fragment.box) (range : ByteRange) :
    ∀ box ∈ boxesWithin range fragments, holds box := by
  refine List.forall_mem_map.mpr fun fragment member => ?_
  exact all fragment (List.mem_of_mem_filter member)

namespace Subexpression

/-- A record shows an entry by the least box around some boxes. -/
structure Outlines (entry : Entry) (boxes : List (Box Float)) (record : Subexpression Float)
    (box : Box Float) : Prop where
  extent : Box.Extent boxes box
  text : record.text = entry.text
  range : record.range = entry.range
  fragments : record.fragments = boxes.length
  x : record.x = box.x0
  y : record.y = box.y0
  width : record.width = box.x1 - box.x0
  height : record.height = box.y1 - box.y0

/-- Records that agree in every field, where the lengths may be zeros of either sign. -/
structure Agree (a b : Subexpression Float) : Prop where
  text : a.text = b.text
  range : a.range = b.range
  fragments : a.fragments = b.fragments
  x : Length.Same a.x b.x
  y : Length.Same a.y b.y
  width : Length.Same a.width b.width
  height : Length.Same a.height b.height

variable {fragments others : List (Fragment Float)} {entry outer inner : Entry}
  {record : Subexpression Float}

theorem recordOf?_eq_none (within : boxesWithin entry.range fragments = []) :
    recordOf? fragments entry = none := by
  unfold boxesWithin at within
  simp [recordOf?, within]

theorem exists_outlines (numeric : ∀ fragment ∈ fragments, fragment.box.Numeric)
    (within : boxesWithin entry.range fragments ≠ []) :
    ∃ record box, recordOf? fragments entry = some record ∧
      Outlines entry (boxesWithin entry.range fragments) record box := by
  have all := forall_boxesWithin numeric entry.range
  obtain ⟨first, rest, split⟩ := List.exists_cons_of_ne_nil within
  rw [split] at all
  have extent := Box.extent_foldl_merge first rest all
  rw [split]
  unfold boxesWithin at split
  simp only [recordOf?, split]
  exact ⟨_, rest.foldl Box.merge first, rfl, extent, rfl, rfl, rfl, rfl, rfl, rfl, rfl⟩

theorem outlines_of_recordOf? (numeric : ∀ fragment ∈ fragments, fragment.box.Numeric)
    (made : recordOf? fragments entry = some record) :
    ∃ box, Outlines entry (boxesWithin entry.range fragments) record box := by
  by_cases within : boxesWithin entry.range fragments = []
  · rw [recordOf?_eq_none within] at made
    cases made
  · obtain ⟨record', box, made', outlines⟩ := exists_outlines numeric within
    rw [made'] at made
    cases made
    exact ⟨box, outlines⟩

theorem outlined_correlate (numeric : ∀ fragment ∈ fragments, fragment.box.Numeric)
    (entries : List Entry) :
    List.Forall₂
      (fun entry record =>
        ∃ box, Outlines entry (boxesWithin entry.range fragments) record box)
      (entries.filter fun entry => entry.range.holdsFragment fragments)
      (correlate entries fragments) := by
  induction entries with
  | nil => exact .nil
  | cons entry entries induction =>
      unfold correlate at induction ⊢
      by_cases within : boxesWithin entry.range fragments = []
      · rw [List.filter_cons, boxesWithin_eq_nil_iff.mp within,
          List.filterMap_cons_none (recordOf?_eq_none within)]
        exact induction
      · have holds : entry.range.holdsFragment fragments = true := by
          rwa [boxesWithin_eq_nil_iff, Bool.not_eq_false] at within
        obtain ⟨record, box, made, outlines⟩ := exists_outlines numeric within
        rw [List.filter_cons, holds, List.filterMap_cons_some made]
        exact .cons ⟨box, outlines⟩ induction

theorem Outlines.agree {boxes boxes' : List (Box Float)} {record record' : Subexpression Float}
    {box box' : Box Float} (first : Outlines entry boxes record box)
    (second : Outlines entry boxes' record' box') (permuted : boxes.Perm boxes') :
    record.Agree record' := by
  have around := first.extent.encloses second.extent permuted.symm.subset
  have inside := second.extent.encloses first.extent permuted.subset
  have left := Length.beq_of_le_of_le around.left inside.left
  have right := Length.beq_of_le_of_le inside.right around.right
  have top := Length.beq_of_le_of_le around.top inside.top
  have bottom := Length.beq_of_le_of_le inside.bottom around.bottom
  constructor
  case text => rw [first.text, second.text]
  case range => rw [first.range, second.range]
  case fragments => rw [first.fragments, second.fragments, permuted.length_eq]
  case x => rw [first.x, second.x]; exact .inr left
  case y => rw [first.y, second.y]; exact .inr top
  case width => rw [first.width, second.width]; exact Length.same_sub right left
  case height => rw [first.height, second.height]; exact Length.same_sub bottom top

theorem agree_recordOf? (numeric : ∀ fragment ∈ fragments, fragment.box.Numeric)
    (permuted : fragments.Perm others) (entry : Entry) :
    Option.Rel Agree (recordOf? fragments entry) (recordOf? others entry) := by
  have numeric' : ∀ fragment ∈ others, fragment.box.Numeric :=
    fun fragment member => numeric fragment (permuted.symm.subset member)
  have boxes : (boxesWithin entry.range fragments).Perm (boxesWithin entry.range others) :=
    (permuted.filter _).map _
  by_cases within : boxesWithin entry.range fragments = []
  · have within' : boxesWithin entry.range others = [] := by
      rw [within] at boxes
      exact boxes.symm.eq_nil
    rw [recordOf?_eq_none within, recordOf?_eq_none within']
    exact .none
  · have within' : boxesWithin entry.range others ≠ [] := by
      intro none_there
      rw [none_there] at boxes
      exact within boxes.eq_nil
    obtain ⟨record, box, made, outlines⟩ := exists_outlines numeric within
    obtain ⟨record', box', made', outlines'⟩ := exists_outlines numeric' within'
    rw [made, made']
    exact .some (outlines.agree outlines' boxes)

theorem agree_correlate (numeric : ∀ fragment ∈ fragments, fragment.box.Numeric)
    (permuted : fragments.Perm others) (entries : List Entry) :
    List.Forall₂ Agree (correlate entries fragments) (correlate entries others) := by
  have same : List.Forall₂ Eq entries entries := List.forall₂_eq_eq_eq ▸ rfl
  refine List.rel_filterMap ?_ same
  rintro entry _ rfl
  exact agree_recordOf? numeric permuted entry

/-- The record of an entry, with a check of every box that is made on the way. -/
def recordChecked (fragments : List (Fragment Float)) (entry : Entry) :
    Except Box.Unordered (Option (Subexpression Float)) :=
  match boxesWithin entry.range fragments with
  | [] => pure none
  | first :: rest => do
      let box ← rest.foldlM Box.mergeChecked first
      return some
        { text := entry.text, x := box.x0, y := box.y0, width := box.width
          height := box.height, range := entry.range, fragments := rest.length + 1 }

theorem recordChecked_eq (ordered : ∀ fragment ∈ fragments, fragment.box.Ordered)
    (entry : Entry) : recordChecked fragments entry = .ok (recordOf? fragments entry) := by
  have all := forall_boxesWithin ordered entry.range
  unfold recordChecked recordOf?
  rw [← boxesWithin]
  cases split : boxesWithin entry.range fragments with
  | nil => rfl
  | cons first rest =>
      rw [split] at all
      simp only [Box.foldlM_mergeChecked rest first all]
      rfl

def correlateChecked (entries : List Entry) (fragments : List (Fragment Float)) :
    Except Box.Unordered (List (Subexpression Float)) :=
  entries.filterMapM (recordChecked fragments)

theorem correlateChecked_eq (ordered : ∀ fragment ∈ fragments, fragment.box.Ordered)
    (entries : List Entry) :
    correlateChecked entries fragments = .ok (correlate entries fragments) := by
  unfold correlateChecked correlate
  induction entries with
  | nil => rfl
  | cons entry entries induction =>
      rw [List.filterMapM_cons, recordChecked_eq ordered, List.filterMap_cons, induction]
      cases recordOf? fragments entry <;> rfl

theorem Outlines.grow {record' : Subexpression Float} {box box' : Box Float}
    (contained : outer.range.contains inner.range = true)
    (small : Outlines inner (boxesWithin inner.range fragments) record box)
    (large : Outlines outer (boxesWithin outer.range fragments) record' box') :
    record.fragments ≤ record'.fragments ∧ box'.Encloses box := by
  have among := boxesWithin_sublist contained fragments
  constructor
  · rw [small.fragments, large.fragments]
    exact among.length_le
  · exact large.extent.encloses small.extent among.subset

theorem exists_record_of_contains (numeric : ∀ fragment ∈ fragments, fragment.box.Numeric)
    (contained : outer.range.contains inner.range = true)
    (made : recordOf? fragments inner = some record) :
    ∃ record' box box', recordOf? fragments outer = some record' ∧
      Outlines inner (boxesWithin inner.range fragments) record box ∧
      Outlines outer (boxesWithin outer.range fragments) record' box' ∧
      record.fragments ≤ record'.fragments ∧ box'.Encloses box := by
  obtain ⟨box, small⟩ := outlines_of_recordOf? numeric made
  have within : boxesWithin outer.range fragments ≠ [] := by
    intro none_there
    have among := boxesWithin_sublist contained fragments
    rw [none_there] at among
    rw [recordOf?_eq_none (List.sublist_nil.mp among)] at made
    cases made
  obtain ⟨record', box', made', large⟩ := exists_outlines numeric within
  obtain ⟨more, encloses⟩ := small.grow contained large
  exact ⟨record', box, box', made', small, large, more, encloses⟩

end Subexpression

open Subexpression in
theorem records_outline_fragments (entries : List Entry) (fragments : List (Fragment Float))
    (ordered : ∀ fragment ∈ fragments, fragment.box.Ordered)
    (numeric : ∀ fragment ∈ fragments, fragment.box.Numeric) :
    List.Forall₂
        (fun entry record =>
          ∃ box, Outlines entry (boxesWithin entry.range fragments) record box)
        (entries.filter fun entry => entry.range.holdsFragment fragments)
        (correlate entries fragments) ∧
      (∀ others, fragments.Perm others →
        List.Forall₂ Agree (correlate entries fragments) (correlate entries others)) ∧
      correlateChecked entries fragments = .ok (correlate entries fragments) ∧
      ∀ outer ∈ entries, ∀ inner ∈ entries, outer.range.contains inner.range = true →
        ∀ record, recordOf? fragments inner = some record →
          ∃ record' ∈ correlate entries fragments, recordOf? fragments outer = some record' ∧
            ∃ box box', Outlines inner (boxesWithin inner.range fragments) record box ∧
              Outlines outer (boxesWithin outer.range fragments) record' box' ∧
              record.fragments ≤ record'.fragments ∧ box'.Encloses box := by
  refine ⟨outlined_correlate numeric entries, fun others permuted => ?_,
    correlateChecked_eq ordered entries, ?_⟩
  · exact agree_correlate numeric permuted entries
  · intro outer member inner _ contained record made
    obtain ⟨record', box, box', made', small, large, grown⟩ :=
      exists_record_of_contains numeric contained made
    have recorded : record' ∈ correlate entries fragments :=
      List.mem_filterMap.mpr ⟨outer, member, made'⟩
    exact ⟨record', recorded, made', box, box', small, large, grown⟩

/-- A sum with its first term and the space at its end, where nothing is drawn. -/
def sumEntries : List Entry :=
  [⟨.numbered "main" 1, ⟨0, 4, by omega⟩, "a+b "⟩, ⟨.numbered "main" 2, ⟨0, 1, by omega⟩, "a"⟩,
    ⟨.numbered "main" 3, ⟨3, 4, by omega⟩, " "⟩]

def sumFragments : List (Fragment Float) :=
  [⟨⟨2, 3, by omega⟩, ⟨9.5, 14.25, -7.0, 0.0⟩⟩, ⟨⟨0, 1, by omega⟩, ⟨-0.0, 5.5, -4.5, 0.25⟩⟩]

open Subexpression in
theorem records_outline_fragments_of_sum :
    List.Forall₂
        (fun entry record =>
          ∃ box, Outlines entry (boxesWithin entry.range sumFragments) record box)
        (sumEntries.take 2) (correlate sumEntries sumFragments) ∧
      List.Forall₂ Agree (correlate sumEntries sumFragments)
        (correlate sumEntries sumFragments.reverse) ∧
      correlateChecked sumEntries sumFragments = .ok (correlate sumEntries sumFragments) ∧
      ∃ record ∈ correlate sumEntries sumFragments, record.text = "a+b " ∧
        1 ≤ record.fragments := by
  have ordered : ∀ fragment ∈ sumFragments, fragment.box.Ordered := by
    refine List.forall_mem_cons.mpr ⟨⟨by decide, by decide⟩, ?_⟩
    exact List.forall_mem_singleton.mpr ⟨by decide, by decide⟩
  have numeric : ∀ fragment ∈ sumFragments, fragment.box.Numeric := by
    refine List.forall_mem_cons.mpr ⟨⟨by decide, by decide, by decide, by decide⟩, ?_⟩
    exact List.forall_mem_singleton.mpr ⟨by decide, by decide, by decide, by decide⟩
  obtain ⟨outlined, agree, checked, grown⟩ :=
    records_outline_fragments sumEntries sumFragments ordered numeric
  refine ⟨outlined, agree _ (List.reverse_perm _).symm, checked, ?_⟩
  obtain ⟨record, member, -, _, _, -, large, more, -⟩ :=
    grown _ (List.mem_cons_self ..) _ (List.mem_cons_of_mem _ (List.mem_cons_self ..))
      (by decide) _ rfl
  exact ⟨record, member, large.text, more⟩

end EquationMap
