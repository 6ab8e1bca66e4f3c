import EquationMap.Proofs.Lexing.Scan
import EquationMap.Proofs.Text.Boundary

namespace EquationMap

/-! The tokens of a text lie in it in order and cover all of it that is not blank. -/

open Text

/-- An element of two lists in a row is in the first or in the second of them. -/
theorem split_append {before after done piece : List α} {c : α}
    (split : before ++ c :: after = done ++ piece) :
    (∃ more, done = before ++ c :: more) ∨
      (∃ more, before = done ++ more ∧ piece = more ++ c :: after) := by
  rcases List.append_eq_append_iff.mp split with ⟨more, inDone, tail⟩ | ⟨more, inPiece, tail⟩
  · cases more with
    | nil => exact .inr ⟨[], by simpa using inDone.symm, by simpa using tail.symm⟩
    | cons d more =>
        cases List.head_eq_of_cons_eq tail
        exact .inl ⟨more, inDone⟩
  · exact .inr ⟨more, inPiece, tail⟩

namespace Scanned

variable {done : List Char} {tokens : List Token}

theorem occurrence (scanned : Scanned done tokens) {token : Token} (member : token ∈ tokens) :
    ∃ before source after, done = before ++ source ++ after ∧
      token.range = .ofLength (byteLength before) (byteLength source) ∧ source ≠ [] ∧
      Spells token.kind token.value.toList source ∧ token.kind ≠ .eof := by
  induction scanned with
  | start => simp at member
  | @blanks done gap tokens _ _ ih =>
      obtain ⟨before, source, after, rfl, facts⟩ := ih member
      exact ⟨before, source, after ++ gap, by simp, facts⟩
  | @token done tokens kind value source _ nonempty spells inText ih =>
      rcases List.mem_cons.mp member with rfl | earlier
      · exact ⟨done, source, [], by simp, rfl, nonempty, spells, inText⟩
      · obtain ⟨before, piece, after, rfl, facts⟩ := ih earlier
        exact ⟨before, piece, after ++ source, by simp, facts⟩

theorem stop_le (scanned : Scanned done tokens) {token : Token} (member : token ∈ tokens) :
    token.range.stop ≤ byteLength done := by
  obtain ⟨before, source, after, rfl, range, -⟩ := scanned.occurrence member
  simp [range, ByteRange.ofLength]

theorem start_lt_stop (scanned : Scanned done tokens) {token : Token}
    (member : token ∈ tokens) : token.range.start < token.range.stop := by
  obtain ⟨before, source, after, rfl, range, nonempty, -⟩ := scanned.occurrence member
  have := byteLength_pos nonempty
  simp only [range, ByteRange.ofLength]
  omega

theorem boundaries (scanned : Scanned done tokens) {token : Token} (member : token ∈ tokens) :
    IsBoundary done token.range.start ∧ IsBoundary done token.range.stop := by
  obtain ⟨before, source, after, rfl, range, -⟩ := scanned.occurrence member
  rw [range]
  constructor
  · rw [List.append_assoc]
    exact isBoundary_of_append before (source ++ after)
  · have stop := isBoundary_of_append (before ++ source) after
    rwa [byteLength_append] at stop

theorem spelled (scanned : Scanned done tokens) {token : Token} (member : token ∈ tokens) :
    Spells token.kind token.value.toList
      (slice done token.range.start token.range.stop) := by
  obtain ⟨before, source, after, rfl, range, -, spells, -⟩ := scanned.occurrence member
  rw [range]
  simp only [ByteRange.ofLength]
  rw [slice_of_append]
  exact spells

theorem ordered (scanned : Scanned done tokens) :
    tokens.Pairwise fun later earlier => earlier.range.stop ≤ later.range.start := by
  induction scanned with
  | start => exact .nil
  | blanks _ _ ih => exact ih
  | token scanned _ _ _ ih => exact .cons (fun _ member => scanned.stop_le member) ih

theorem covered (scanned : Scanned done tokens) {before after : List Char} {c : Char}
    (split : done = before ++ c :: after) (visible : isBlank c = false) :
    ∃ token ∈ tokens, token.range.start ≤ byteLength before ∧
      byteLength before < token.range.stop := by
  induction scanned generalizing after with
  | start => simp at split
  | @blanks done gap tokens _ blank ih =>
      rcases split_append split.symm with ⟨more, inDone⟩ | ⟨more, -, inGap⟩
      · exact ih inDone
      · have := blank c (by simp [inGap])
        rw [visible] at this
        contradiction
  | @token done tokens kind value source _ _ _ _ ih =>
      rcases split_append split.symm with ⟨more, inDone⟩ | ⟨more, inSource, rfl⟩
      · obtain ⟨token, member, holds⟩ := ih inDone
        exact ⟨token, List.mem_cons_of_mem _ member, holds⟩
      · refine ⟨_, List.mem_cons_self, ?_⟩
        have := c.utf8Size_pos
        simp only [ByteRange.ofLength, inSource, byteLength_append, byteLength_cons]
        omega

end Scanned

/-- Tokens that lie in a text one after the other, the last of them at its end. -/
structure TokenList.InOrder (tokens : TokenList) (text : List Char) : Prop where
  boundaries : ∀ token ∈ tokens.toList,
    IsBoundary text token.range.start ∧ IsBoundary text token.range.stop
  ordered : tokens.toList.Pairwise fun earlier later => earlier.range.stop ≤ later.range.start
  nonempty : ∀ token ∈ tokens.tokens, token.range.start < token.range.stop
  inText : ∀ token ∈ tokens.tokens, token.kind ≠ .eof
  last : tokens.last = ⟨.eof, "", .empty (byteLength text)⟩

theorem Scanned.inOrder {text : List Char} {tokens : TokenList}
    (scanned : Scanned text tokens.tokens.reverse)
    (last : tokens.last = ⟨.eof, "", .empty (byteLength text)⟩) : tokens.InOrder text where
  boundaries := by
    intro token member
    rcases List.mem_append.mp member with inText | isLast
    · exact scanned.boundaries (List.mem_reverse.mpr inText)
    · rw [List.mem_singleton.mp isLast, last]
      exact ⟨isBoundary_end text, isBoundary_end text⟩
  ordered := by
    rw [TokenList.toList, List.pairwise_append]
    refine ⟨List.pairwise_reverse.mp scanned.ordered, List.pairwise_singleton _ _, ?_⟩
    intro token inText final isLast
    rw [List.mem_singleton.mp isLast, last]
    exact scanned.stop_le (List.mem_reverse.mpr inText)
  nonempty := fun _ inText => scanned.start_lt_stop (List.mem_reverse.mpr inText)
  inText := by
    intro token inText
    obtain ⟨_, _, _, _, _, _, _, notEnd⟩ := scanned.occurrence (List.mem_reverse.mpr inText)
    exact notEnd
  last := last

theorem TokenList.inOrder_of_tokenize {text : String} {tokens : TokenList}
    (tokenized : tokenize text = .ok tokens) : tokens.InOrder text.toList := by
  obtain ⟨scanned, last⟩ := tokenize_scanned tokenized
  exact scanned.inOrder last

end EquationMap
