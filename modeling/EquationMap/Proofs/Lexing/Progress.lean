import EquationMap.Proofs.Lexing.Faults
import Mathlib.Tactic.SplitIfs

namespace EquationMap

/-! The loops of the lexer. What is read at one depth of contexts is a loop whose next turn comes
when the contexts opened in a turn have been left again; by then it has moved on in the text. -/

namespace Lexer

/-- Whether a lexer stands behind another one in the text, past a piece of it. -/
structure Passes (piece : List Char) (earlier later : Lexer) : Prop where
  rest : earlier.rest = piece ++ later.rest
  offset : later.offset = earlier.offset + Text.byteLength piece

/-- What reading from a place on may lead to: a later place, the end outside of all contexts, or a
context that nests too deeply. -/
def Progress.From (text : List Char) : Progress → Prop
  | .going next => next.rest <:+ text
  | .finished last => last.contexts = []
  | .abandoned last => ∃ range, last.errors.head? = some ⟨.nestedTooDeep, range⟩

variable {lexer : Lexer} {text shorter : List Char}

theorem Progress.From.mono {progress : Progress} (leads : progress.From shorter)
    (suffix : shorter <:+ text) : progress.From text := by
  cases progress with
  | going next => exact List.IsSuffix.trans leads suffix
  | finished last => exact leads
  | abandoned last => exact leads

theorem skip_rest (lexer : Lexer) (piece : List Char) : (lexer.skip piece).rest <:+ lexer.rest :=
  List.drop_suffix _ _

theorem readString_rest (lexer : Lexer) (afterQuote : List Char) :
    (lexer.readString afterQuote).rest <:+ lexer.rest := by
  unfold readString
  dsimp only
  split <;> exact lexer.skip_rest _

theorem openWith_from (lexer : Lexer) (kind : TokenKind) (c : Char) (context : LexContext) :
    (lexer.openWith kind c context).From lexer.rest := by
  unfold openWith
  dsimp only
  split
  · exact ⟨_, rfl⟩
  · exact lexer.skip_rest [c]

theorem embedded_from (lexer : Lexer) : lexer.embedded.From lexer.rest := by
  have missing : (Progress.going
      (lexer.report .missingEmbedded (lexer.offset - 1))).From lexer.rest := List.suffix_rfl
  unfold embedded
  dsimp only
  split
  · exact missing
  · split_ifs
    · exact (lexer.enter .trailing).skip_rest _
    · exact (lexer.enter .trailing).skip_rest _
    · exact (lexer.enter .trailing).readString_rest _
    · exact (lexer.enter .trailing).openWith_from _ _ _
    · exact (lexer.enter .trailing).openWith_from _ _ _
    · exact missing

theorem mathToken_from (lexer : Lexer) (c : Char) (rest : List Char) :
    (lexer.mathToken c rest).From lexer.rest := by
  unfold mathToken
  split_ifs
  · exact (lexer.emitChar .hash c).embedded_from.mono (lexer.skip_rest [c])
  · exact lexer.readString_rest _
  all_goals exact lexer.skip_rest _

theorem codeToken_from (lexer : Lexer) (c : Char) (rest : List Char) :
    (lexer.codeToken c rest).From lexer.rest := by
  unfold codeToken
  split_ifs
  · exact lexer.skip_rest [c]
  · exact lexer.openWith_from _ _ _
  · exact lexer.openWith_from _ _ _
  · exact lexer.skip_rest _
  · exact lexer.skip_rest _
  · exact lexer.readString_rest _
  · split <;> exact lexer.skip_rest _

theorem trailingToken_from (lexer : Lexer) : lexer.trailingToken.From lexer.rest := by
  unfold trailingToken
  split
  · exact lexer.openWith_from _ _ _
  · exact lexer.openWith_from _ _ _
  · split
    · exact ((lexer.emitChar .dot '.').skip_rest _).trans (lexer.skip_rest _)
    · exact List.suffix_rfl
  · exact List.suffix_rfl

theorem step_from (lexer : Lexer) : lexer.step.From lexer.rest := by
  have here : lexer.skipBlanks.rest <:+ lexer.rest := lexer.skip_rest _
  unfold step
  dsimp only
  split
  · rename_i outside
    split
    · exact outside
    · exact (lexer.skipBlanks.mathToken_from _ _).mono here
  · exact lexer.trailingToken_from
  · split
    · exact here
    · exact (lexer.skipBlanks.codeToken_from _ _).mono here
  · split
    · exact here
    · split
      · exact (lexer.skipBlanks.skip_rest _).trans here
      · exact (lexer.skipBlanks.mathToken_from _ _).mono here

theorem run_from (fuel : Nat) (lexer : Lexer) : (run fuel lexer).From lexer.rest := by
  induction fuel generalizing lexer with
  | zero => exact List.suffix_rfl
  | succ fuel ih =>
      have stepped := lexer.step_from
      unfold run
      cases same : lexer.step with
      | going next =>
          rw [same] at stepped
          exact (ih next).mono stepped
      | finished last =>
          rw [same] at stepped
          exact stepped
      | abandoned last =>
          rw [same] at stepped
          exact stepped

theorem Follows.passes {here later : Lexer} (before : here.Follows text)
    (after : later.Follows text) (suffix : later.rest <:+ here.rest) :
    ∃ piece, Passes piece here later := by
  obtain ⟨done, split, offset, -⟩ := before
  obtain ⟨more, again, laterOffset, -⟩ := after
  obtain ⟨piece, rest⟩ := suffix
  have same : more = done ++ piece := by
    rw [split, ← rest, ← List.append_assoc] at again
    exact (List.append_cancel_right again).symm
  refine ⟨piece, rest.symm, ?_⟩
  rw [laterOffset, offset, same, Text.byteLength_append]

/-- By the next turn of a loop, when no fewer contexts are open than before, the lexer has moved
on in the text. -/
theorem passes_of_run {taken more : Nat} {here later : Lexer}
    (reached : run taken (.start text) = .going here)
    (goes : run (more + 1) here = .going later)
    (inside : here.contexts.length ≤ later.contexts.length) :
    ∃ piece ≠ [], Passes piece here later := by
  have suffix := run_from (more + 1) here
  have before := (Placed.start text).run taken
  rw [reached] at before
  have after := before.1.run (more + 1)
  rw [goes] at after suffix
  obtain ⟨piece, passes⟩ := before.1.follows.passes after.1.follows suffix
  refine ⟨piece, ?_, passes⟩
  rintro rfl
  have less := after.2
  unfold size at less
  rw [passes.rest, List.nil_append] at less
  omega

/-- The steps granted lead to the end of the text, unless contexts nest too deeply. -/
theorem run_ends (text : List Char) :
    (∃ last, run (2 * text.length + 1) (.start text) = .finished last ∧ last.rest = [] ∧
      last.contexts = [] ∧ last.offset = Text.byteLength text) ∨
    ∃ last range, run (2 * text.length + 1) (.start text) = .abandoned last ∧
      last.errors.head? = some ⟨.nestedTooDeep, range⟩ := by
  have followed := (follows_start text).run (2 * text.length + 1)
  have led := run_from (2 * text.length + 1) (.start text)
  have ended := (Placed.start text).run (2 * text.length + 1)
  cases ran : run (2 * text.length + 1) (.start text) with
  | going last =>
      rw [ran] at ended
      have steps : (start text).size = 2 * text.length := rfl
      have less := ended.2
      omega
  | finished last =>
      rw [ran] at followed led
      obtain ⟨⟨done, split, offset, -⟩, atEnd⟩ := followed
      rw [atEnd, List.append_nil] at split
      exact .inl ⟨last, rfl, atEnd, led, split ▸ offset⟩
  | abandoned last =>
      rw [ran] at led
      obtain ⟨range, head⟩ := led
      exact .inr ⟨last, range, rfl, head⟩

end Lexer

end EquationMap
