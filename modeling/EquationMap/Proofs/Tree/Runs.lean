import EquationMap.Proofs.Tree.Placement

namespace EquationMap

variable {all : List Token}
  (ordered : all.Pairwise fun earlier later => earlier.range.stop ≤ later.range.start)
include ordered

theorem eq_or_apart {a b : Token} (left : a ∈ all) (right : b ∈ all) :
    a = b ∨ a.range.Apart b.range := by
  induction all with
  | nil => cases left
  | cons first rest ih =>
      have before : ∀ later ∈ rest, first.range.stop ≤ later.range.start :=
        fun _ => List.rel_of_pairwise_cons ordered
      rcases List.mem_cons.mp left with rfl | later
      · rcases List.mem_cons.mp right with rfl | after
        · exact .inl rfl
        · exact .inr (.inl (before b after))
      · rcases List.mem_cons.mp right with rfl | after
        · exact .inr (.inr (before a later))
        · exact ih ordered.of_cons later after

theorem eq_of_meeting {a b : Token} (left : a ∈ all) (right : b ∈ all)
    (left_nonempty : a.range.start < a.range.stop) (right_nonempty : b.range.start < b.range.stop)
    (meeting : a.range.start = b.range.start ∨ a.range.stop = b.range.stop) : a = b := by
  rcases eq_or_apart ordered left right with same | apart
  · exact same
  · unfold ByteRange.Apart at apart
    omega

/-- The tokens of a stretch are those between the start of the first and the end of the last
of them. -/
theorem mem_run_iff {run : List Token} {first last token : Token} (within : run <:+: all)
    (head : run.head? = some first) (final : run.getLast? = some last) (member : token ∈ all)
    (nonempty : token.range.start < token.range.stop) :
    (ByteRange.cover first.range last.range).contains token.range = true ↔ token ∈ run := by
  obtain ⟨before, after, split⟩ := within
  obtain ⟨others, rfl⟩ := List.head?_eq_some_iff.mp head
  obtain ⟨earlier, run_split⟩ := List.getLast?_eq_some_iff.mp final
  have isLast : last ∈ first :: others := by
    rw [run_split]
    exact List.mem_append_right _ List.mem_cons_self
  have first_ordered := first.range.ordered
  have last_ordered := last.range.ordered
  rw [ByteRange.contains_iff, ByteRange.start_cover, ByteRange.stop_cover]
  rw [← split, List.append_assoc] at ordered member
  obtain ⟨-, right, from_before⟩ := List.pairwise_append.mp ordered
  obtain ⟨inner, -, to_after⟩ := List.pairwise_append.mp right
  constructor
  · intro inside
    rcases List.mem_append.mp member with isBefore | later
    · have := from_before token isBefore first (List.mem_append_left _ List.mem_cons_self)
      omega
    · rcases List.mem_append.mp later with inRun | isAfter
      · exact inRun
      · have := to_after first List.mem_cons_self token isAfter
        have := to_after last isLast token isAfter
        omega
  · intro inRun
    have from_first : first.range.start ≤ token.range.start := by
      rcases List.mem_cons.mp inRun with rfl | later
      · exact Nat.le_refl _
      · have := List.rel_of_pairwise_cons inner later
        omega
    have to_last : token.range.stop ≤ last.range.stop := by
      rw [run_split] at inner inRun
      rcases List.mem_append.mp inRun with sooner | same
      · have := (List.pairwise_append.mp inner).2.2 token sooner last List.mem_cons_self
        omega
      · obtain rfl := List.mem_singleton.mp same
        exact Nat.le_refl _
    omega

theorem countP_within {run : List Token} {first last : Token} (within : run <:+: all)
    (head : run.head? = some first) (final : run.getLast? = some last) {test : Token → Bool}
    (nonempty : ∀ token ∈ all, test token = true → token.range.start < token.range.stop) :
    (all.countP fun token =>
      test token && (ByteRange.cover first.range last.range).contains token.range) =
      run.countP test := by
  have inRun : ∀ token ∈ all, test token = true →
      ((ByteRange.cover first.range last.range).contains token.range = true ↔ token ∈ run) :=
    fun token member passes =>
      mem_run_iff ordered within head final member (nonempty token member passes)
  obtain ⟨before, after, rfl⟩ := within
  obtain ⟨left, -, to_after⟩ := List.pairwise_append.mp ordered
  obtain ⟨-, -, from_before⟩ := List.pairwise_append.mp left
  have run_count : (run.countP fun token =>
      test token && (ByteRange.cover first.range last.range).contains token.range) =
      run.countP test := by
    refine List.countP_congr fun token member => ?_
    have whole := List.mem_append_left after (List.mem_append_right before member)
    rw [Bool.and_eq_true]
    exact ⟨And.left, fun passes => ⟨passes, (inRun token whole passes).mpr member⟩⟩
  -- A token of the run cannot lie before or after the run as well.
  have before_count : (before.countP fun token =>
      test token && (ByteRange.cover first.range last.range).contains token.range) = 0 := by
    refine List.countP_eq_zero.mpr fun token member holds => ?_
    obtain ⟨passes, inside⟩ := Bool.and_eq_true_iff.mp holds
    have whole := List.mem_append_left after (List.mem_append_left run member)
    have again := (inRun token whole passes).mp inside
    have := from_before token member token again
    have := nonempty token whole passes
    omega
  have after_count : (after.countP fun token =>
      test token && (ByteRange.cover first.range last.range).contains token.range) = 0 := by
    refine List.countP_eq_zero.mpr fun token member holds => ?_
    obtain ⟨passes, inside⟩ := Bool.and_eq_true_iff.mp holds
    have whole := List.mem_append_right (before ++ run) member
    have again := (inRun token whole passes).mp inside
    have := to_after token (List.mem_append_right _ again) token member
    have := nonempty token whole passes
    omega
  rw [List.countP_append, List.countP_append, before_count, run_count, after_count]
  omega

theorem countP_run {run : List Token} {first last : Token} (within : run <:+: all)
    (head : run.head? = some first) (final : run.getLast? = some last)
    (kinds : ∀ mark ∈ run, mark.kind = .prime)
    (nonempty : ∀ mark ∈ all, mark.kind = .prime → mark.range.start < mark.range.stop) :
    (all.countP fun token => token.kind = .prime &&
      (ByteRange.cover first.range last.range).contains token.range) = run.length := by
  have every : run.countP (fun token => token.kind = .prime) = run.length :=
    List.countP_eq_length.mpr fun mark member => decide_eq_true (kinds mark member)
  rw [← every]
  exact countP_within ordered within head final fun mark member isPrime =>
    nonempty mark member (of_decide_eq_true isPrime)

end EquationMap
