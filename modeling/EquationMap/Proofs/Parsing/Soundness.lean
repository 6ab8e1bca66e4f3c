import EquationMap.Proofs.Parsing.Code
import EquationMap.Proofs.Parsing.Turns
import EquationMap.Syntax.Formula

namespace EquationMap

/-! Whatever the grammar reads without a fault is written in the tokens that it passes. -/

open Grammar Reading

namespace Grammar

variable {deeper : Phrase → Reading Node} {cursor last : Cursor} {node : Node}

section

variable (sound : Sound deeper) (closed : cursor.Closed)
  [forward : ∀ phrase, GoesForward (deeper phrase)]

include sound closed

theorem embedded_written (hash : cursor.current.kind = .hash)
    (read : (codeAtom deeper >>= fun expr => codeTail deeper expr) cursor.next = .ok node last)
    (clean : last.errors = []) : Written (.one .math node) cursor.tokens last.tokens := by
  obtain ⟨expr, middle, expr_read, middle_clean, read⟩ := bind_clean read clean
  have written := codeAtom_written sound closed.next expr_read middle_clean
  have expr_closed := closed_after closed.next expr_read
  rw [closed.tokens_of_kind hash (by decide)]
  obtain ⟨tail_written, ends⟩ := codeTail_written sound expr_closed read clean written
  exact .embedded hash tail_written ends

theorem atom_written [StartsInPlace deeper] {stops : List TokenKind}
    (inText : cursor.current.kind ≠ .eof)
    (read : atom deeper stops cursor = .ok node last) (clean : last.errors = []) :
    Written (.one .math node) cursor.tokens last.tokens := by
  have tokens := closed.tokens_next inText
  unfold atom at read
  simp only [current_bind] at read
  cases kind : cursor.current.kind
  case eof => contradiction
  case ident =>
    simp only [kind, peek_bind, branch_apply] at read
    split at read
    · rename_i calls
      have opening := calls.1
      rw [closed.peek_eq inText] at opening
      exact mathCall_written sound closed kind opening read clean
    · cases read
      rw [tokens]
      exact .leaf (.mathIdent kind)
  case shorthand =>
    simp only [kind, advance_bind] at read
    cases read
    rw [tokens]
    exact .leaf (.shorthand kind)
  case string =>
    simp only [kind, advance_bind] at read
    cases read
    rw [tokens]
    exact .leaf (.str kind)
  case root =>
    simp only [kind, advance_bind, endsSequence_bind, branch_apply] at read
    split at read
    · exact (report_not_clean read clean).elim
    · rename_i goesOn
      obtain ⟨radicand, middle, radicand_read, middle_clean, read⟩ := bind_clean read clean
      cases read
      rw [tokens]
      have follows := inText_of_not_endsSequence goesOn
      exact .root kind (sound (.atom _) closed.next follows radicand_read middle_clean)
  case prime =>
    simp only [kind] at read
    obtain ⟨marks, marks_read, rfl⟩ := map_clean read
    exact .primes (primes_written closed kind marks_read)
  case amp =>
    simp only [kind, advance_bind] at read
    cases read
    rw [tokens]
    exact .leaf (.alignPoint kind)
  case linebreak =>
    simp only [kind, advance_bind] at read
    cases read
    rw [tokens]
    exact .leaf (.linebreak kind)
  case hash =>
    simp only [kind, advance_bind] at read
    exact embedded_written sound closed kind read clean
  case lparen =>
    simp only [kind] at read
    exact delimited_written sound closed (by rw [kind]; exact .inl rfl) read clean
  case lbracket =>
    simp only [kind] at read
    exact delimited_written sound closed (by rw [kind]; exact .inl rfl) read clean
  case lbrace =>
    simp only [kind] at read
    exact delimited_written sound closed (by rw [kind]; exact .inl rfl) read clean
  case bar =>
    simp only [kind, hasClosingBar_bind, branch_apply] at read
    split at read
    · exact delimited_written sound closed (.inr ⟨kind, rfl⟩) read clean
    · cases read
      rw [tokens]
      exact .leaf (.text (by rw [kind]; rfl))
  case hat =>
    simp only [kind, advance_bind] at read
    cases read
  case underscore =>
    simp only [kind, advance_bind] at read
    cases read
  all_goals
    simp only [kind, advance_bind] at read
    cases read
    rw [tokens]
    exact .leaf (.text (by rw [kind]; rfl))

theorem body_makes [StartsInPlace deeper] (phrase : Phrase) (fits : phrase.Fits cursor.current)
    (read : body deeper phrase cursor = .ok node last) (clean : last.errors = []) :
    phrase.Makes node cursor.tokens last.tokens := by
  -- A phrase that goes on from a node is written behind what the node is written in.
  cases phrase with
  | atom stops => exact atom_written sound closed fits read clean
  | script mark stops stop => exact attachment_written sound closed fits read clean
  | denominator num slash stops =>
      intro start slashToken kind before
      change (attachment deeper stops none >>= fun denom => fractionFrom deeper stops
        (.frac num denom { range := .cover num.range denom.range })) cursor = _ at read
      obtain ⟨denom, middle, denom_read, middle_clean, read⟩ := bind_clean read clean
      have written := attachment_written sound closed fits denom_read middle_clean
      exact fractionFrom_written sound (closed_after closed denom_read) read clean
        (.frac before kind written)
  | arguments callee =>
      intro start before
      change (codeCall deeper callee >>= fun expr => codeTail deeper expr) cursor = _ at read
      obtain ⟨expr, middle, expr_read, middle_clean, read⟩ := bind_clean read clean
      have written := codeCall_written sound closed fits.1 fits.2 expr_read middle_clean before
      exact codeTail_written sound (closed_after closed expr_read) read clean written
  | attachedBlock callee =>
      intro start before
      change (contentBlock deeper >>= fun block => codeTail deeper
        (.call callee [block] { range := block.range }
          { range := .cover callee.range block.range })) cursor = _ at read
      obtain ⟨block, middle, block_read, middle_clean, read⟩ := bind_clean read clean
      obtain ⟨written, block_start⟩ :=
        contentBlock_written sound closed fits.1 block_read middle_clean
      exact codeTail_written sound (closed_after closed block_read) read clean
        (.blockCall before written (by rw [block_start, fits.2]))
  | field target =>
      intro start before
      change (advance >>= fun _ => expect .ident >>= fun name => codeTail deeper
        (.field target name.value { range := .cover target.range name.range })) cursor = _ at read
      simp only [advance_bind] at read
      obtain ⟨name, middle, name_read, middle_clean, read⟩ := bind_clean read clean
      obtain ⟨kind, rfl, rfl⟩ := expect_clean name_read middle_clean
      have dot : cursor.current.kind = .dot := fits
      rw [closed.tokens_of_kind dot (by decide), closed.next.tokens_of_kind kind (by decide)]
        at before
      exact codeTail_written sound closed.next.next read clean (.field before dot kind)
  | expression power =>
      change (codeOperand deeper >>= fun lhs => expressionFrom deeper power lhs) cursor = _
        at read
      obtain ⟨lhs, middle, lhs_read, middle_clean, read⟩ := bind_clean read clean
      have written := codeOperand_written sound closed lhs_read middle_clean
      exact expressionFrom_written sound (closed_after closed lhs_read) read clean written
  | operand lhs op mark power =>
      intro start markToken writes before
      change (deeper (.expression op.rightPower) >>= fun rhs => expressionFrom deeper power
        (.binary lhs op rhs { range := .cover lhs.range rhs.range })) cursor = _ at read
      obtain ⟨rhs, middle, rhs_read, middle_clean, read⟩ := bind_clean read clean
      have written : Written (.one .code rhs) cursor.tokens middle.tokens :=
        sound (.expression _) closed trivial rhs_read middle_clean
      exact expressionFrom_written sound (closed_after closed rhs_read) read clean
        (.binary before writes written)

end

theorem phrase_sound (levels : Nat) : Sound (Grammar.phrase levels) := by
  induction levels with
  | zero =>
      intro phrase cursor last node closed fits read clean
      cases read
  | succ levels ih =>
      intro phrase cursor last node closed fits read clean
      unfold Grammar.phrase at read
      exact body_makes ih closed phrase fits read clean

end Grammar

theorem Cursor.tokens_ofTokens (tokens : TokenList) :
    (Cursor.ofTokens tokens).tokens = tokens.toList := by
  unfold Cursor.ofTokens TokenList.toList Cursor.tokens
  cases tokens.tokens <;> rfl

theorem Cursor.closed_ofTokens {tokens : TokenList} (isEnd : tokens.last.kind = .eof) :
    (Cursor.ofTokens tokens).Closed := by
  refine ⟨tokens.last, isEnd, ?_⟩
  rw [Cursor.tokens_ofTokens]
  exact List.suffix_append _ _

theorem Cursor.tokens_at_end {tokens : TokenList} {cursor : Cursor}
    (inText : ∀ token ∈ tokens.tokens, token.kind ≠ .eof)
    (passed : cursor.tokens <:+ tokens.toList) (atEnd : cursor.current.kind = .eof) :
    cursor.tokens = [tokens.last] := by
  obtain ⟨before, split⟩ := passed
  unfold TokenList.toList Cursor.tokens at *
  rcases List.eq_nil_or_concat cursor.rest with more | ⟨others, last, more⟩
  · rw [more] at split
    rw [more]
    exact List.append_inj_right' split rfl
  · rw [more, List.concat_eq_append, ← List.cons_append, ← List.append_assoc] at split
    have same := List.append_inj_left' split rfl
    refine absurd atEnd (inText _ ?_)
    rw [← same]
    simp

/-- A formula is written in all the tokens it is read from, and it ends where they end. -/
theorem Formula.written_of_ofTokens {tokens : TokenList} {formula : Formula}
    (inText : ∀ token ∈ tokens.tokens, token.kind ≠ .eof) (isEnd : tokens.last.kind = .eof)
    (read : Formula.ofTokens tokens = .ok formula) :
    Written (.many .math formula.exprs) tokens.toList [tokens.last] ∧
      formula.place = ⟨.between 0 tokens.last.range.stop, .detached⟩ := by
  unfold Formula.ofTokens at read
  split at read
  · rename_i exprs cursor sequence_read
    split at read
    · rename_i isClean
      cases read
      have clean := List.isEmpty_iff.mp isClean
      have tokens_start := Cursor.tokens_ofTokens tokens
      have closed := Cursor.closed_ofTokens isEnd
      have sound := Grammar.phrase_sound maxNesting
      have written := sequence_written sound closed sequence_read clean
      have passed := (GoesForward.completed sequence_read).tokens
      rw [tokens_start] at written passed
      have ends := sequence_reaches_end (phrase_passesAtoms maxNesting) closed sequence_read
      have atEnd : cursor.current.kind = .eof := by
        simpa [Cursor.endsSequence] using ends
      have only := Cursor.tokens_at_end inText passed atEnd
      rw [only] at written
      refine ⟨written, ?_⟩
      rw [(List.cons.inj only).1]
    · cases read
  · cases read
  · cases read

end EquationMap
