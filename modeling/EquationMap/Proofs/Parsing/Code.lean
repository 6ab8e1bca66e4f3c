import EquationMap.Proofs.Parsing.Mathematics

namespace EquationMap.Grammar

open Reading

variable {deeper : Phrase → Reading Node} {cursor last : Cursor} {node : Node}

theorem codeArgument_clean {item : Node} (read : codeArgument item cursor = .ok node last)
    (clean : last.errors = []) : node = item ∧ last = cursor := by
  cases item
  case keyed => exact (report_not_clean read clean).elim
  all_goals
    cases read
    exact ⟨rfl, rfl⟩

theorem groupOf_written {items : List Node} {afterComma : Bool} {opening closing : Token}
    {middle rest : List Token}
    (read : groupOf items afterComma { range := .cover opening.range closing.range } cursor =
      .ok node last) (clean : last.errors = [])
    (opening_kind : opening.kind = .lparen) (closing_kind : closing.kind = .rparen)
    (written : Written (.many .item items) middle (closing :: rest)) :
    last = cursor ∧ Written (.one .operand node) (opening :: middle) rest := by
  unfold groupOf at read
  simp only [branch_apply] at read
  split at read
  · split at read
    · rename_i fits
      cases read
      rw [List.filter_eq_self.mpr (List.all_eq_true.mp fits)]
      exact ⟨rfl, .dict opening_kind closing_kind written⟩
    · exact (report_not_clean read clean).elim
  · have array := Written.array opening_kind closing_kind written
    rcases items with - | ⟨item, - | ⟨second, others⟩⟩
    · cases read
      exact ⟨rfl, array⟩
    · cases item
      case spread =>
        cases read
        exact ⟨rfl, array⟩
      all_goals
        cases afterComma
        · cases read
          exact ⟨rfl, .parenthesized opening_kind closing_kind written⟩
        · cases read
          exact ⟨rfl, array⟩
    · cases item
      all_goals
        cases read
        exact ⟨rfl, array⟩

section

variable (sound : Sound deeper) (closed : cursor.Closed)

include sound closed

theorem codeTail_written {expr : Node} {start : List Token}
    (read : codeTail deeper expr cursor = .ok node last) (clean : last.errors = [])
    (before : Written (.one .operand expr) start cursor.tokens) :
    Written (.one .operand node) start last.tokens ∧
      ¬Attaches node.range.stop last.tokens := by
  unfold codeTail at read
  simp only [current_bind, branch_apply] at read
  split at read
  · rename_i attached
    exact sound (.arguments expr) closed attached read clean before
  · rename_i no_arguments
    split at read
    · rename_i attached
      exact sound (.attachedBlock expr) closed attached read clean before
    · rename_i no_block
      split at read
      · rename_i kind
        exact sound (.field expr) closed kind read clean before
      · rename_i no_field
        cases read
        refine ⟨before, ?_⟩
        rintro (field | ⟨arguments | block, adjacent⟩)
        · exact no_field field
        · exact no_arguments ⟨arguments, adjacent⟩
        · exact no_block ⟨block, adjacent⟩

theorem expressionFrom_written {power : Nat} {lhs : Node} {start : List Token}
    (read : expressionFrom deeper power lhs cursor = .ok node last) (clean : last.errors = [])
    (before : Written (.one .code lhs) start cursor.tokens) :
    Written (.one .code node) start last.tokens := by
  unfold expressionFrom at read
  simp only [current_bind] at read
  cases writes : BinaryOp.ofKind? cursor.current.kind with
  | none =>
      simp only [writes] at read
      cases read
      exact before
  | some op =>
      simp only [writes, branch_apply, advance_bind] at read
      split at read
      · cases read
        exact before
      · have inText : cursor.current.kind ≠ .eof := by
          intro isEnd
          rw [isEnd] at writes
          cases writes
        rw [closed.tokens_next inText] at before
        exact sound (.operand _ _ _ _) closed.next trivial read clean writes before

variable [forward : ∀ phrase, GoesForward (deeper phrase)]

theorem contentBlock_written (opening : cursor.current.kind = .lbracket)
    (read : contentBlock deeper cursor = .ok node last) (clean : last.errors = []) :
    Written (.one .block node) cursor.tokens last.tokens ∧
      node.range.start = cursor.current.range.start := by
  unfold contentBlock at read
  simp only [advance_bind] at read
  obtain ⟨body, middle, body_read, middle_clean, read⟩ := bind_clean read clean
  have written := sequence_written sound closed.next body_read middle_clean
  obtain ⟨token, final, closing_read, final_clean, read⟩ := bind_clean read clean
  obtain ⟨closing, rfl, rfl⟩ := expect_clean closing_read final_clean
  cases read
  rw [(closed_after closed.next body_read).tokens_of_kind closing (by decide)] at written
  rw [closed.tokens_of_kind opening (by decide)]
  exact ⟨.contentBlock opening closing written, rfl⟩

theorem codeItem_written (read : codeItem deeper cursor = .ok node last)
    (clean : last.errors = []) : Written (.one .item node) cursor.tokens last.tokens := by
  unfold codeItem at read
  simp only [isAt_bind, branch_apply, advance_bind] at read
  split at read
  · rename_i atDots
    have kind := of_decide_eq_true atDots
    obtain ⟨expr, middle, expr_read, middle_clean, read⟩ := bind_clean read clean
    cases read
    rw [closed.tokens_of_kind kind (by decide)]
    exact .spread kind (sound (.expression 0) closed.next trivial expr_read middle_clean)
  · obtain ⟨expr, middle, expr_read, middle_clean, read⟩ :=
      bind_clean_of read clean (by
        intro expr
        refine .bind inferInstance fun _ => .ite ?_ inferInstance
        refine .bind inferInstance fun _ => .bind inferInstance fun _ => ?_
        split <;> infer_instance)
    have expr_written := sound (.expression 0) closed trivial expr_read middle_clean
    have middle_closed := closed_after closed expr_read
    simp only [isAt_bind, branch_apply, advance_bind] at read
    split at read
    · rename_i atColon
      have kind := of_decide_eq_true atColon
      obtain ⟨value, final, value_read, final_clean, read⟩ :=
        bind_clean_of read clean (by intro; split <;> infer_instance)
      have value_written :=
        sound (.expression 0) middle_closed.next trivial value_read final_clean
      rw [middle_closed.tokens_of_kind kind (by decide)] at expr_written
      cases expr
      case ident name place =>
        cases read
        obtain ⟨token, token_kind, rfl, rfl, split⟩ := expr_written.token_of_ident
        rw [split]
        exact .named token_kind kind value_written
      all_goals
        cases read
        exact .keyed expr_written kind value_written
    · cases read
      exact .item expr_written

theorem codeItemsFrom_written {found items : List Node} {afterComma trailing : Bool}
    {fuel : Nat} {start : List Token}
    (read : codeItemsFrom deeper found afterComma fuel cursor = .ok (items, trailing) last)
    (clean : last.errors = []) (before : Written (.many .item found.reverse) start cursor.tokens) :
    Written (.many .item items) start last.tokens := by
  induction fuel generalizing found afterComma cursor with
  | zero =>
      cases read
      exact before
  | succ fuel ih =>
      unfold codeItemsFrom at read
      simp only [current_bind, branch_apply] at read
      split at read
      · cases read
        exact before
      · obtain ⟨item, middle, item_read, middle_clean, read⟩ := bind_clean read clean
        have middle_closed := closed_after closed item_read
        have extended : Written (.many .item (item :: found).reverse) start middle.tokens := by
          rw [List.reverse_cons]
          exact .more before (codeItem_written sound closed item_read middle_clean)
        simp only [isAt_bind, branch_apply, advance_bind] at read
        split at read
        · rename_i atComma
          have kind := of_decide_eq_true atComma
          rw [middle_closed.tokens_of_kind kind (by decide)] at extended
          exact ih middle_closed.next read (.comma extended kind)
        · cases read
          exact extended

theorem codeGroup_written (opening : cursor.current.kind = .lparen)
    (read : codeGroup deeper cursor = .ok node last) (clean : last.errors = []) :
    Written (.one .operand node) cursor.tokens last.tokens := by
  unfold codeGroup at read
  simp only [advance_bind, isAt_bind, branch_apply, peek_bind] at read
  have tokens := closed.tokens_of_kind opening (by decide)
  have inside := closed.next
  split at read
  · rename_i atCloser
    have closing := of_decide_eq_true atCloser
    cases read
    rw [tokens, inside.tokens_of_kind closing (by decide)]
    exact .array opening closing .none
  · split at read
    · rename_i atColon
      obtain ⟨isColon, isCloser⟩ := Bool.and_eq_true_iff.mp atColon
      have colon := of_decide_eq_true isColon
      have closing := of_decide_eq_true isCloser
      rw [inside.peek_eq (by rw [colon]; decide)] at closing
      cases read
      rw [tokens, inside.tokens_of_kind colon (by decide),
        inside.next.tokens_of_kind closing (by decide)]
      exact .emptyDict opening colon closing
    · obtain ⟨⟨items, afterComma⟩, middle, items_read, middle_clean, read⟩ :=
        bind_clean read clean
      unfold codeItems at items_read
      simp only [remaining_bind] at items_read
      have written := codeItemsFrom_written sound inside items_read middle_clean .none
      obtain ⟨token, final, closing_read, final_clean, read⟩ := bind_clean read clean
      obtain ⟨closing, rfl, rfl⟩ := expect_clean closing_read final_clean
      rw [(closed_after inside items_read).tokens_of_kind closing (by decide)] at written
      rw [tokens]
      obtain ⟨rfl, made⟩ := groupOf_written read clean opening closing written
      exact made

theorem codeAtom_written (read : codeAtom deeper cursor = .ok node last)
    (clean : last.errors = []) : Written (.one .operand node) cursor.tokens last.tokens := by
  unfold codeAtom at read
  simp only [current_bind] at read
  cases kind : cursor.current.kind
  case ident =>
    simp only [kind, advance_bind, pure_apply] at read
    cases read
    rw [closed.tokens_of_kind kind (by decide)]
    exact .leaf (.ident kind)
  case int =>
    simp only [kind, advance_bind] at read
    cases value : Decimal.readInteger cursor.current.value with
    | error fault =>
        simp only [value] at read
        cases read
    | ok number =>
        simp only [value, pure_apply] at read
        cases read
        rw [closed.tokens_of_kind kind (by decide)]
        exact .leaf (.int kind value)
  case float =>
    simp only [kind, advance_bind] at read
    cases value : Decimal.readNumeral? cursor.current.value.toList with
    | none =>
        simp only [value] at read
        cases read
    | some number =>
        simp only [value, pure_apply] at read
        cases read
        rw [closed.tokens_of_kind kind (by decide)]
        exact .leaf (.float kind value)
  case string =>
    simp only [kind, advance_bind, pure_apply] at read
    cases read
    rw [closed.tokens_of_kind kind (by decide)]
    exact .leaf (.codeStr kind)
  case bool =>
    simp only [kind, advance_bind, pure_apply] at read
    cases read
    rw [closed.tokens_of_kind kind (by decide)]
    exact .leaf (.bool kind)
  case none =>
    simp only [kind, advance_bind, pure_apply] at read
    cases read
    rw [closed.tokens_of_kind kind (by decide)]
    exact .leaf (.noneLit kind)
  case auto =>
    simp only [kind, advance_bind, pure_apply] at read
    cases read
    rw [closed.tokens_of_kind kind (by decide)]
    exact .leaf (.autoLit kind)
  case lparen =>
    simp only [kind] at read
    exact codeGroup_written sound closed kind read clean
  case lbracket =>
    simp only [kind] at read
    exact .blockOperand (contentBlock_written sound closed kind read clean).1
  all_goals
    simp only [kind] at read
    cases read

theorem codeArgumentsFrom_written {found items : List Node} {fuel : Nat} {start : List Token}
    (read : codeArgumentsFrom deeper found fuel cursor = .ok items last)
    (clean : last.errors = []) (before : Written (.many .item found.reverse) start cursor.tokens) :
    Written (.many .item items) start last.tokens := by
  induction fuel generalizing found cursor with
  | zero =>
      cases read
      exact before
  | succ fuel ih =>
      unfold codeArgumentsFrom at read
      simp only [current_bind, branch_apply] at read
      split at read
      · cases read
        exact before
      · obtain ⟨item, middle, item_read, middle_clean, read⟩ := bind_clean read clean
        obtain ⟨arg, afterArg, arg_read, arg_clean, tail_read⟩ := bind_clean read clean
        have middle_closed := closed_after closed item_read
        obtain ⟨rfl, rfl⟩ := codeArgument_clean arg_read arg_clean
        have extended : Written (.many .item (arg :: found).reverse) start afterArg.tokens := by
          rw [List.reverse_cons]
          exact .more before (codeItem_written sound closed item_read middle_clean)
        simp only [isAt_bind, branch_apply, advance_bind] at tail_read
        split at tail_read
        · rename_i atComma
          have kind := of_decide_eq_true atComma
          rw [middle_closed.tokens_of_kind kind (by decide)] at extended
          exact ih middle_closed.next tail_read (.comma extended kind)
        · cases tail_read
          exact extended

theorem attachedBlocksFrom_written {found blocks : List Node} {closing range : ByteRange}
    {fuel : Nat} {start : List Token}
    (read : attachedBlocksFrom deeper found (lastRange closing found.reverse) fuel cursor =
      .ok (blocks, range) last) (clean : last.errors = [])
    (before : Written (.many .block found.reverse) start cursor.tokens)
    (contiguous : Contiguous closing.stop found.reverse) :
    Written (.many .block blocks) start last.tokens ∧ range = lastRange closing blocks ∧
      Contiguous closing.stop blocks := by
  induction fuel generalizing found cursor with
  | zero =>
      cases read
      exact ⟨before, rfl, contiguous⟩
  | succ fuel ih =>
      unfold attachedBlocksFrom at read
      simp only [current_bind, branch_apply] at read
      split at read
      · rename_i attached
        obtain ⟨block, middle, block_read, middle_clean, read⟩ := bind_clean read clean
        obtain ⟨written, block_start⟩ :=
          contentBlock_written sound closed attached.1 block_read middle_clean
        have extended : Written (.many .block (block :: found).reverse) start middle.tokens := by
          rw [List.reverse_cons]
          exact .more before written
        have longer : Contiguous closing.stop (block :: found).reverse := by
          rw [List.reverse_cons, contiguous_concat]
          exact ⟨contiguous, by rw [block_start, ← attached.2, stop_lastRange]⟩
        have lastBlock : block.range = lastRange closing (block :: found).reverse := by
          simp [lastRange]
        rw [lastBlock] at read
        exact ih (closed_after closed block_read) read extended longer
      · cases read
        exact ⟨before, rfl, contiguous⟩

theorem codeCall_written {callee : Node} {start : List Token}
    (opening : cursor.current.kind = .lparen)
    (attached : callee.range.stop = cursor.current.range.start)
    (read : codeCall deeper callee cursor = .ok node last) (clean : last.errors = [])
    (before : Written (.one .operand callee) start cursor.tokens) :
    Written (.one .operand node) start last.tokens := by
  unfold codeCall at read
  simp only [advance_bind, remaining_bind] at read
  obtain ⟨args, afterArgs, args_read, args_clean, read⟩ := bind_clean read clean
  have args_written := codeArgumentsFrom_written sound closed.next args_read args_clean .none
  have args_closed := closed_after closed.next args_read
  obtain ⟨token, middle, closing_read, middle_clean, read⟩ := bind_clean read clean
  obtain ⟨closing, rfl, rfl⟩ := expect_clean closing_read middle_clean
  simp only [remaining_bind] at read
  obtain ⟨⟨blocks, range⟩, final, blocks_read, final_clean, read⟩ := bind_clean read clean
  obtain ⟨blocks_written, rfl, contiguous⟩ :=
    attachedBlocksFrom_written sound args_closed.next blocks_read final_clean .none trivial
  cases read
  rw [closed.tokens_of_kind opening (by decide)] at before
  rw [args_closed.tokens_of_kind closing (by decide)] at args_written
  exact .call before opening closing attached args_written blocks_written contiguous

theorem codeOperand_written (read : codeOperand deeper cursor = .ok node last)
    (clean : last.errors = []) : Written (.one .code node) cursor.tokens last.tokens := by
  unfold codeOperand at read
  simp only [current_bind] at read
  cases writes : UnaryOp.ofKind? cursor.current.kind with
  | none =>
      simp only [writes] at read
      obtain ⟨expr, middle, expr_read, middle_clean, read⟩ := bind_clean read clean
      have written := codeAtom_written sound closed expr_read middle_clean
      exact .operand (codeTail_written sound (closed_after closed expr_read) read clean written).1
  | some op =>
      simp only [writes, advance_bind] at read
      obtain ⟨expr, middle, expr_read, middle_clean, read⟩ := bind_clean read clean
      cases read
      have inText : cursor.current.kind ≠ .eof := by
        intro isEnd
        rw [isEnd] at writes
        cases writes
      rw [closed.tokens_next inText]
      exact .unary writes (sound (.expression _) closed.next trivial expr_read middle_clean)

end

end EquationMap.Grammar
