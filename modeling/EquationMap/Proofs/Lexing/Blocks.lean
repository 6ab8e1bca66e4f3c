import EquationMap.Proofs.Lexing.Contexts
import EquationMap.Proofs.Lexing.Faults
import Mathlib.Tactic.SplitIfs

namespace EquationMap

namespace Lexer

/-- The lexers that the steps through a text lead to. -/
inductive Reached (text : String) : Lexer → Prop
  | start : Reached text (.start text.toList)
  | step {lexer next : Lexer} (reached : Reached text lexer)
      (stepped : lexer.step = .going next) : Reached text next

/-- Whether the lexer, on its way through a text, leaves the block that it opened at an offset
as it reads a token. -/
def ClosesBlock (text : String) (opened : Nat) (token : Token) : Prop :=
  ∃ lexer next, Reached text lexer ∧ lexer.step = .going next ∧
    lexer.contexts = .block opened 0 :: next.contexts ∧ next.tokens = token :: lexer.tokens

section

variable {text : String} {lexer next last : Lexer} {fuel : Nat}

theorem openWith_goesOn (kind : TokenKind) (c : Char) (context : LexContext) :
    lexer.openWith kind c context ≠ .finished last := by
  unfold openWith
  dsimp only
  split <;> exact Progress.noConfusion

theorem embedded_goesOn : lexer.embedded ≠ .finished last := by
  unfold embedded openGroup openBlock
  dsimp only
  split
  · exact Progress.noConfusion
  · split_ifs <;> first | exact openWith_goesOn _ _ _ | exact Progress.noConfusion

theorem mathToken_goesOn (c : Char) (rest : List Char) :
    lexer.mathToken c rest ≠ .finished last := by
  unfold mathToken
  split_ifs <;> first | exact embedded_goesOn | exact Progress.noConfusion

theorem codeToken_goesOn (c : Char) (rest : List Char) :
    lexer.codeToken c rest ≠ .finished last := by
  unfold codeToken openGroup openBlock
  split_ifs <;> first | exact openWith_goesOn _ _ _ | exact Progress.noConfusion | skip
  split <;> exact Progress.noConfusion

theorem trailingToken_goesOn : lexer.trailingToken ≠ .finished last := by
  unfold trailingToken openGroup openBlock
  split
  · exact openWith_goesOn _ _ _
  · exact openWith_goesOn _ _ _
  · split <;> exact Progress.noConfusion
  · exact Progress.noConfusion

theorem eq_of_step_finished (stepped : lexer.step = .finished last) :
    last = lexer.skipBlanks := by
  unfold step at stepped
  dsimp only at stepped
  split at stepped
  · split at stepped
    · cases stepped
      rfl
    · cases mathToken_goesOn _ _ stepped
  · cases trailingToken_goesOn stepped
  · split at stepped
    · cases stepped
    · cases codeToken_goesOn _ _ stepped
  · split at stepped
    · cases stepped
    · split at stepped
      · cases stepped
      · cases mathToken_goesOn _ _ stepped

theorem clean_of_finished (ran : run fuel lexer = .finished last) (clean : last.errors = []) :
    lexer.errors = [] ∧ lexer.tokens <:+ last.tokens := by
  induction fuel generalizing lexer with
  | zero => cases ran
  | succ fuel ih =>
      unfold run at ran
      split at ran
      · rename_i middle stepped
        obtain ⟨middle_clean, kept⟩ := ih ran
        obtain ⟨read, reads⟩ := step_reads stepped middle_clean
        refine ⟨reads.errors ▸ middle_clean, .trans ?_ kept⟩
        rw [reads.tokens]
        exact List.suffix_append _ _
      · rename_i final stepped
        cases ran
        cases eq_of_step_finished stepped
        exact ⟨clean, List.suffix_rfl⟩
      · cases ran

/-- What a text that is divided without a fault leads to goes on to the end of the text. -/
theorem Reached.finishes (reached : Reached text lexer)
    (ran : run fuel (.start text.toList) = .finished last) :
    ∃ fewer, run fewer lexer = .finished last := by
  induction reached with
  | start => exact ⟨fuel, ran⟩
  | step reached stepped ih =>
      obtain ⟨fewer, ran⟩ := ih
      cases fewer with
      | zero => cases ran
      | succ fewer =>
          rw [run, stepped] at ran
          exact ⟨fewer, ran⟩

theorem Reached.exists_last (reached : Reached text lexer)
    (ran : run fuel lexer = .finished last) :
    ∃ final, Reached text final ∧ final.tokens = last.tokens := by
  induction fuel generalizing lexer with
  | zero => cases ran
  | succ fuel ih =>
      unfold run at ran
      split at ran
      · rename_i next stepped
        exact ih (reached.step stepped) ran
      · rename_i final stepped
        cases ran
        exact ⟨lexer, reached, (congrArg Lexer.tokens (eq_of_step_finished stepped)).symm⟩
      · cases ran

theorem exists_run_of_tokenize {tokens : TokenList} (tokenized : tokenize text = .ok tokens) :
    ∃ fuel last, run fuel (.start text.toList) = .finished last ∧ last.errors = [] ∧
      tokens.tokens = last.tokens.reverse := by
  unfold tokenize at tokenized
  dsimp only at tokenized
  split at tokenized
  · rename_i last finished
    unfold result at tokenized
    split at tokenized
    · rename_i clean
      cases tokenized
      exact ⟨_, last, finished, List.isEmpty_iff.mp clean, rfl⟩
    · cases tokenized
  · cases tokenized
  · cases tokenized

theorem Reached.kept {tokens : TokenList} (tokenized : tokenize text = .ok tokens)
    (reached : Reached text lexer) :
    lexer.errors = [] ∧ ∃ after, tokens.tokens = lexer.tokens.reverse ++ after := by
  obtain ⟨fuel, last, ran, clean, all⟩ := exists_run_of_tokenize tokenized
  obtain ⟨fewer, finishes⟩ := reached.finishes ran
  obtain ⟨lexer_clean, after, split⟩ := clean_of_finished finishes clean
  refine ⟨lexer_clean, after.reverse, ?_⟩
  rw [all, ← split, List.reverse_append]

theorem Reached.preserves (Holds : Lexer → Prop) {tokens : TokenList}
    (tokenized : tokenize text = .ok tokens) (start : Holds (.start text.toList))
    (preserves : ∀ {lexer next : Lexer} {read : List Token}, Reached text lexer →
      lexer.step = .going next → lexer.Reads read next → Holds lexer → Holds next)
    (reached : Reached text lexer) : Holds lexer := by
  induction reached with
  | start => exact start
  | step reached stepped ih =>
      obtain ⟨read, reads⟩ := step_reads stepped ((reached.step stepped).kept tokenized).1
      exact preserves reached stepped reads ih

end

/-- Whether the tokens since the bracket that opened a block, given latest first, leave so many
square brackets open in it. -/
def OpenSince (start count : Nat) (tokens : List Token) : Prop :=
  ∃ inside opening before, tokens = inside ++ opening :: before ∧ opening.kind = .lbracket ∧
    opening.range.start = start ∧
    count + inside.countP (fun token => token.kind = .rbracket) =
      inside.countP fun token => token.kind = .lbracket

/-- Whether the brackets that are counted in each block are those open since it was opened, with
the brackets of the blocks in it and so many more. -/
def Counted (more : Nat) (tokens : List Token) : List LexContext → Prop
  | [] => True
  | .block start brackets :: outer =>
      OpenSince start (brackets + more) tokens ∧ Counted (brackets + more + 1) tokens outer
  | _ :: outer => Counted more tokens outer

section

variable {start more before : Nat} {contexts : List LexContext} {tokens : List Token}
  {token : Token}

theorem OpenSince.cons (opened : OpenSince start before tokens)
    (change : more + (if token.kind = .rbracket then 1 else 0) =
      before + (if token.kind = .lbracket then 1 else 0)) :
    OpenSince start more (token :: tokens) := by
  obtain ⟨inside, opening, earlier, rfl, kind, opens, sum⟩ := opened
  refine ⟨token :: inside, opening, earlier, rfl, kind, opens, ?_⟩
  simp only [List.countP_cons, decide_eq_true_eq]
  omega

namespace Counted

theorem cons (counted : Counted before tokens contexts)
    (change : more + (if token.kind = .rbracket then 1 else 0) =
      before + (if token.kind = .lbracket then 1 else 0)) :
    Counted more (token :: tokens) contexts := by
  induction contexts generalizing more before with
  | nil => trivial
  | cons context outer ih =>
      cases context with
      | trailing => exact ih counted change
      | group start => exact ih counted change
      | block start brackets =>
          obtain ⟨opened, outside⟩ := counted
          exact ⟨opened.cons (by omega), ih outside (by omega)⟩

theorem skip (counted : Counted more tokens contexts) (notOpening : token.kind ≠ .lbracket)
    (notClosing : token.kind ≠ .rbracket) : Counted more (token :: tokens) contexts :=
  counted.cons (by rw [if_neg notOpening, if_neg notClosing])

theorem opened (counted : Counted 0 tokens contexts) (notClosing : token.kind ≠ .rbracket) :
    Counted 0 (token :: tokens) (Lexer.opened token contexts) := by
  by_cases kind : token.kind = .lbracket
  · unfold Lexer.opened
    rw [kind]
    refine ⟨⟨[], token, tokens, rfl, kind, rfl, rfl⟩, counted.cons ?_⟩
    rw [if_pos kind, if_neg notClosing]
  · have skipped : Counted 0 (token :: tokens) contexts := counted.skip kind notClosing
    unfold Lexer.opened
    split
    · exact skipped
    · contradiction
    · exact skipped

theorem passed (counted : Counted 0 tokens contexts)
    (inside : LexContext.Mathematics contexts) :
    Counted 0 (token :: tokens) (Lexer.passed token.kind contexts) := by
  match contexts, inside with
  | [], _ => cases kind : token.kind <;> trivial
  | .block start brackets :: outer, _ =>
      obtain ⟨opened, outside⟩ := counted
      by_cases opening : token.kind = .lbracket
      · have change (more : Nat) : more + 1 + (if token.kind = .rbracket then 1 else 0) =
            more + (if token.kind = .lbracket then 1 else 0) := by simp [opening]
        have deeper : Counted 0 (token :: tokens) (.block start (brackets + 1) :: outer) :=
          ⟨opened.cons (by rw [← change]), outside.cons (by rw [← change])⟩
        cases brackets <;> simpa [Lexer.passed, countBracket, opening] using deeper
      · by_cases closing : token.kind = .rbracket
        · cases brackets with
          | zero =>
              rw [Lexer.passed, if_pos closing]
              exact outside.cons (by simp [closing])
          | succ brackets =>
              have less : Counted 0 (token :: tokens) (.block start brackets :: outer) :=
                ⟨opened.cons (by simp [closing]), outside.cons (by simp [closing])⟩
              simpa [Lexer.passed, countBracket, closing] using less
        · rw [passed_of_other opening closing]
          exact skip ⟨opened, outside⟩ opening closing

theorem reads {lexer next : Lexer} {read : List Token}
    (counted : Counted 0 lexer.tokens lexer.contexts) (reads : lexer.Reads read next) :
    Counted 0 next.tokens next.contexts := by
  obtain ⟨step, tokens, -, -, -, -⟩ := reads
  rw [tokens]
  generalize next.contexts = after at step
  cases step with
  | leave inside =>
      rw [inside] at counted
      exact counted
  | attach inside opens =>
      exact counted.opened (by rcases opens with kind | kind <;> simp [kind])
  | field inside dot_kind name_kind =>
      exact (counted.skip (by simp [dot_kind]) (by simp [dot_kind])).opened name_kind
  | close inside kind =>
      rw [inside] at counted
      exact skip counted (by simp [kind]) (by simp [kind])
  | code inside notParen notBracket => exact counted.opened notBracket
  | math inside => exact counted.passed inside
  | embedded inside hash_kind head_kind =>
      refine Counted.opened ?_ head_kind
      exact counted.skip (by simp [hash_kind]) (by simp [hash_kind])

end Counted

end

theorem Reads.kind_of_closing {lexer next : Lexer} {read : List Token} {start : Nat}
    {token : Token} (reads : lexer.Reads read next)
    (contexts : lexer.contexts = .block start 0 :: next.contexts)
    (emitted : next.tokens = token :: lexer.tokens) : token.kind = .rbracket := by
  obtain ⟨step, tokens, -, -, -, -⟩ := reads
  rw [tokens] at emitted
  generalize outside : next.contexts = after at step
  cases step with
  | leave inside | attach inside | field inside | close inside | code inside =>
      rw [contexts] at inside
      cases inside
  | @math other =>
      cases emitted
      refine Decidable.byContradiction fun goesOn => ?_
      rw [contexts, Lexer.passed, if_neg goesOn] at outside
      have length := congrArg List.length outside
      rw [countBracket_length] at length
      simp at length
  | embedded => simp at emitted

theorem ClosesBlock.balanced {text : String} {tokens : TokenList}
    (tokenized : tokenize text = .ok tokens) {start : Nat} {token : Token}
    (closes : ClosesBlock text start token) :
    ∃ before opening inside after, tokens.tokens = before ++ opening :: inside ++ token :: after ∧
      opening.kind = .lbracket ∧ opening.range.start = start ∧ token.kind = .rbracket ∧
      inside.countP (fun token => token.kind = .rbracket) =
        inside.countP fun token => token.kind = .lbracket := by
  obtain ⟨lexer, next, reached, stepped, contexts, emitted⟩ := closes
  have counted : Counted 0 lexer.tokens lexer.contexts :=
    reached.preserves (fun lexer => Counted 0 lexer.tokens lexer.contexts) tokenized trivial
      fun _ _ reads counted => counted.reads reads
  rw [contexts] at counted
  obtain ⟨⟨inside, opening, before, split, opening_kind, opens, balance⟩, -⟩ := counted
  obtain ⟨clean, after, all⟩ := (reached.step stepped).kept tokenized
  obtain ⟨read, reads⟩ := step_reads stepped clean
  refine ⟨before.reverse, opening, inside.reverse, after, ?_, opening_kind, opens,
    reads.kind_of_closing contexts emitted, ?_⟩
  · rw [all, emitted, split]
    simp
  · rw [List.countP_reverse, List.countP_reverse]
    simpa using balance

end Lexer

end EquationMap
