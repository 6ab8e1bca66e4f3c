import EquationMap.Proofs.Parsing.Phrases

namespace EquationMap.Grammar

open Reading

variable {deeper : Phrase → Reading Node} {cursor last : Cursor} {node : Node}

theorem primesFrom_written {count fuel : Nat} {range : ByteRange} {primes : Primes}
    {start : List Token} (closed : cursor.Closed)
    (read : primesFrom count range fuel cursor = .ok primes last)
    (marks : Marks (some ⟨count, ⟨range, .detached⟩⟩) start cursor.tokens) :
    Marks (some primes) start last.tokens := by
  induction fuel generalizing count range cursor with
  | zero =>
      cases read
      exact marks
  | succ fuel ih =>
      unfold primesFrom at read
      simp only [isAt_bind, branch_apply, advance_bind] at read
      split at read
      · rename_i atPrime
        have kind := of_decide_eq_true atPrime
        refine ih closed.next read ?_
        rw [closed.tokens_of_kind kind (by decide)] at marks
        exact .more marks kind
      · cases read
        exact marks

theorem primes_written {primes : Primes} (closed : cursor.Closed)
    (kind : cursor.current.kind = .prime) (read : Grammar.primes cursor = .ok primes last) :
    Marks (some primes) cursor.tokens last.tokens := by
  unfold Grammar.primes at read
  simp only [current_bind, remaining_bind] at read
  unfold primesFrom at read
  simp only [isAt_bind, branch_apply, advance_bind, kind, decide_true, if_true] at read
  refine primesFrom_written closed.next read ?_
  have same : ByteRange.cover (.cover cursor.current.range cursor.current.range)
      cursor.current.range = cursor.current.range := by
    have := cursor.current.range.ordered
    simp [ByteRange.cover, ByteRange.between, Nat.max_eq_right this]
  rw [same, closed.tokens_of_kind kind (by decide)]
  exact .first kind

section

variable (sound : Sound deeper) (closed : cursor.Closed)

include sound closed

theorem fractionFrom_written {stops : List TokenKind} {num : Node} {start : List Token}
    (read : fractionFrom deeper stops num cursor = .ok node last) (clean : last.errors = [])
    (num_written : Written (.one .math num) start cursor.tokens) :
    Written (.one .math node) start last.tokens := by
  unfold fractionFrom at read
  simp only [isAt_bind, branch_apply, advance_bind, endsSequence_bind] at read
  split at read
  · rename_i atSlash
    have kind := of_decide_eq_true atSlash
    split at read
    · exact (report_not_clean read clean).elim
    · rename_i goesOn
      rw [closed.tokens_of_kind kind (by decide)] at num_written
      have inText := inText_of_not_endsSequence goesOn
      exact sound (.denominator _ _ _) closed.next inText read clean kind num_written
  · cases read
    exact num_written

theorem script_written {side : ScriptSide} {mark : Token} {stops : List TokenKind}
    {stop : Option ScriptSide} {found : Option Node}
    (read : script deeper side mark stops stop cursor = .ok found last)
    (clean : last.errors = []) :
    ∃ node, found = some node ∧ Written (.one .math node) cursor.tokens last.tokens := by
  unfold script at read
  simp only [endsSequence_bind, branch_apply] at read
  split at read
  · exact (report_not_clean read clean).elim
  · rename_i goesOn
    obtain ⟨node, node_read, rfl⟩ := map_clean read
    have inText := inText_of_not_endsSequence goesOn
    exact ⟨node, rfl, sound (.script _ _ _) closed inText node_read clean⟩

theorem secondScript_written {side : ScriptSide} {stops : List TokenKind}
    {found result : Scripts} {start : List Token}
    (read : secondScript deeper side stops found cursor = .ok result last)
    (clean : last.errors = []) (free : found.on side = none)
    (before : Written (.scripts found) start cursor.tokens) :
    Written (.scripts result) start last.tokens := by
  unfold secondScript at read
  simp only [isAt_bind, branch_apply, advance_bind] at read
  split at read
  · rename_i atMark
    have kind := of_decide_eq_true atMark
    obtain ⟨second, middle, script_read, middle_clean, read⟩ :=
      bind_clean_of read clean (by intro; split <;> infer_instance)
    obtain ⟨node, rfl, written⟩ := script_written sound closed.next script_read middle_clean
    cases read
    rw [closed.tokens_of_kind kind (by cases side <;> decide)] at before
    exact .script before kind free written
  · cases read
    exact before

variable [forward : ∀ phrase, GoesForward (deeper phrase)]

theorem scripts_written {stops : List TokenKind} {stop : Option ScriptSide}
    {found : Scripts} (read : scripts deeper stops stop cursor = .ok found last)
    (clean : last.errors = []) : Written (.scripts found) cursor.tokens last.tokens := by
  unfold scripts at read
  simp only [current_bind] at read
  cases ofKind : ScriptSide.ofKind? cursor.current.kind with
  | none =>
      simp only [ofKind] at read
      cases read
      exact .noScripts
  | some side =>
      have kind := ScriptSide.kind_of_ofKind? ofKind
      simp only [ofKind, branch_apply, advance_bind] at read
      split at read
      · cases read
        exact .noScripts
      · obtain ⟨first, middle, script_read, middle_clean, read⟩ :=
          bind_clean_of read clean (by intro; split <;> infer_instance)
        obtain ⟨node, rfl, written⟩ := script_written sound closed.next script_read middle_clean
        have tokens := closed.tokens_of_kind kind (by cases side <;> decide)
        refine secondScript_written sound (closed_after closed.next script_read) read clean ?_ ?_
        · cases side <;> rfl
        · rw [tokens]
          exact .script .noScripts kind (by cases side <;> rfl) written

theorem attachment_written {stops : List TokenKind} {stop : Option ScriptSide}
    (inText : cursor.current.kind ≠ .eof)
    (read : attachment deeper stops stop cursor = .ok node last) (clean : last.errors = []) :
    Written (.one .math node) cursor.tokens last.tokens := by
  unfold attachment at read
  obtain ⟨base, afterBase, base_read, base_clean, read⟩ := bind_clean read clean
  have base_written : Written (.one .math base) cursor.tokens afterBase.tokens :=
    sound (.atom _) closed inText base_read base_clean
  have base_closed := closed_after closed base_read
  simp only [isAt_bind, branch_apply] at read
  -- With or without primes, what remains to be read is the scripts.
  have attached : ∃ primes afterPrimes, Marks primes afterBase.tokens afterPrimes.tokens ∧
      afterPrimes.Closed ∧
      (scripts deeper stops stop >>= fun found =>
        if primes.isNone = true ∧ found.last.isNone = true then pure base
        else pure (.attach base found.bottom found.top primes
          ⟨attachedRange base primes found, .detached⟩)) afterPrimes = .ok node last := by
    split at read
    · rename_i atPrime
      have kind := of_decide_eq_true (Bool.and_eq_true_iff.mp atPrime).1
      obtain ⟨marks, afterPrimes, marks_read, -, read⟩ := bind_clean read clean
      obtain ⟨primes, primes_read, rfl⟩ := map_clean marks_read
      exact ⟨some primes, afterPrimes, primes_written base_closed kind primes_read,
        closed_after base_closed primes_read, read⟩
    · exact ⟨none, afterBase, .absent, base_closed, read⟩
  obtain ⟨primes, afterPrimes, marks, primes_closed, read⟩ := attached
  obtain ⟨found, afterScripts, scripts_read, scripts_clean, read⟩ := bind_clean read clean
  have scripts_written := scripts_written sound primes_closed scripts_read scripts_clean
  simp only [branch_apply] at read
  split at read
  · rename_i bare
    cases read
    rw [Option.isNone_iff_eq_none, Option.isNone_iff_eq_none] at bare
    obtain ⟨rfl, noScripts⟩ := bare
    rw [← scripts_written.rest_of_no_scripts noScripts, ← marks.rest_of_absent]
    exact base_written
  · rename_i proper
    cases read
    refine .attach base_written marks scripts_written ?_
    cases primes with
    | none => simpa [Option.isSome_iff_ne_none] using proper
    | some primes => exact .inl rfl

theorem fraction_written {stops : List TokenKind} (inText : cursor.current.kind ≠ .eof)
    (read : fraction deeper stops cursor = .ok node last) (clean : last.errors = []) :
    Written (.one .math node) cursor.tokens last.tokens := by
  unfold fraction at read
  obtain ⟨num, middle, num_read, middle_clean, read⟩ := bind_clean read clean
  have num_written := attachment_written sound closed inText num_read middle_clean
  exact fractionFrom_written sound (closed_after closed num_read) read clean num_written

theorem sequenceFrom_written {stops : List TokenKind} {found nodes : List Node} {fuel : Nat}
    {start : List Token} (read : sequenceFrom deeper stops found fuel cursor = .ok nodes last)
    (clean : last.errors = []) (before : Written (.many .math found.reverse) start cursor.tokens) :
    Written (.many .math nodes) start last.tokens := by
  -- On the turns that are left. What was read before them is written before them.
  induction fuel generalizing found cursor with
  | zero =>
      cases read
      exact before
  | succ fuel ih =>
      unfold sequenceFrom at read
      simp only [endsSequence_bind, branch_apply, remaining_bind] at read
      split at read
      · cases read
        exact before
      · rename_i goesOn
        obtain ⟨attempted, middle, attempted_read, middle_clean, read⟩ :=
          bind_clean_of read clean (by
            intro attempted
            split
            · infer_instance
            · refine .bind inferInstance fun _ => .ite ?_ inferInstance
              split <;> infer_instance)
        obtain ⟨expr, rfl, expr_read⟩ := attempt_clean attempted_read middle_clean
        have inText := inText_of_not_endsSequence goesOn
        have written := fraction_written sound closed inText expr_read middle_clean
        have extended : Written (.many .math (expr :: found).reverse) start middle.tokens := by
          rw [List.reverse_cons]
          exact .more before written
        have middle_closed := closed_after closed expr_read
        simp only [endsSequence_bind, branch_apply] at read
        split at read
        · cases dangling : operatorSymbol? expr with
          | none =>
              simp only [dangling] at read
              exact ih middle_closed read extended
          | some symbol =>
              simp only [dangling] at read
              exact (report_not_clean read clean).elim
        · exact ih middle_closed read extended

theorem sequence_written {stops : List TokenKind} {nodes : List Node}
    (read : sequence deeper stops cursor = .ok nodes last) (clean : last.errors = []) :
    Written (.many .math nodes) cursor.tokens last.tokens := by
  unfold sequence at read
  simp only [remaining_bind] at read
  exact sequenceFrom_written sound closed read clean .none

theorem delimited_written {closer : TokenKind} (encloses : cursor.current.kind.Encloses closer)
    (read : delimited deeper closer cursor = .ok node last) (clean : last.errors = []) :
    Written (.one .math node) cursor.tokens last.tokens := by
  unfold delimited at read
  simp only [advance_bind] at read
  obtain ⟨body, middle, body_read, middle_clean, read⟩ := bind_clean read clean
  have written := sequence_written sound closed.next body_read middle_clean
  simp only [isAt_bind, branch_apply, advance_bind] at read
  split at read
  · rename_i atCloser
    have kind := of_decide_eq_true atCloser
    rw [pure_bind] at read
    obtain ⟨inside, _, inside_read, -, read⟩ := bind_clean read clean
    obtain ⟨-, rfl, rfl⟩ := range_ok inside_read
    cases read
    have inText : cursor.current.kind ≠ .eof := by
      intro isEnd
      rw [isEnd] at encloses
      rcases encloses with opens | ⟨isBar, -⟩
      · cases opens
      · cases isBar
    have closer_inText : middle.current.kind ≠ .eof := by
      intro isEnd
      rw [← kind, isEnd] at encloses
      rcases encloses with opens | ⟨-, isBar⟩
      · unfold TokenKind.closer? at opens
        split at opens <;> cases opens
      · cases isBar
    rw [(closed_after closed.next body_read).tokens_next closer_inText] at written
    rw [closed.tokens_next inText]
    rw [← kind] at encloses
    exact .delimited encloses written
  · exact (report_not_clean read clean).elim

theorem argumentValue_written (read : argumentValue deeper cursor = .ok node last)
    (clean : last.errors = []) : Written (.one .value node) cursor.tokens last.tokens := by
  unfold argumentValue at read
  simp only [current_bind] at read
  obtain ⟨exprs, middle, exprs_read, middle_clean, read⟩ :=
    bind_clean_of read clean (by intro; split <;> infer_instance)
  have written := sequence_written sound closed exprs_read middle_clean
  have of_range (several : exprs.length ≠ 1)
      (read : (do
        let range ← Reading.range cursor.current.range.start
          ((exprs.getLast?.map fun last : Node => last.range.stop).getD
            cursor.current.range.start)
        return Node.math exprs { range }) middle = .ok node last) :
      Written (.one .value node) cursor.tokens last.tokens := by
    obtain ⟨range, _, range_read, -, made⟩ := bind_clean read clean
    obtain ⟨-, rfl, same⟩ := range_ok range_read
    rw [same] at made
    cases made
    exact .sequence written several
  rcases exprs with _ | ⟨expr, _ | ⟨second, others⟩⟩
  · exact of_range (by simp) read
  · cases read
    exact .single written.of_singleton
  · exact of_range (by simp) read

theorem argument_written (read : argument deeper cursor = .ok node last)
    (clean : last.errors = []) : Written (.one .argument node) cursor.tokens last.tokens := by
  unfold argument at read
  simp only [current_bind, peek_bind, branch_apply, advance_bind] at read
  split at read
  · rename_i labelled
    obtain ⟨names, atColon⟩ := Bool.and_eq_true_iff.mp labelled
    have inText : cursor.current.kind ≠ .eof := by
      intro isEnd
      simp [namesArgument, isEnd] at names
    have colon := of_decide_eq_true atColon
    rw [closed.peek_eq inText] at colon
    obtain ⟨value, middle, value_read, middle_clean, read⟩ := bind_clean read clean
    cases read
    have written := argumentValue_written sound closed.next.next value_read middle_clean
    rw [closed.tokens_next inText, closed.next.tokens_of_kind colon (by decide)]
    exact .labelled names colon written
  · exact .positional (argumentValue_written sound closed read clean)

theorem argumentsFrom_written [StartsInPlace deeper] {found rows : ArgumentRows} {fuel : Nat}
    {start : List Token}
    (read : argumentsFrom deeper found fuel cursor = .ok rows last) (clean : last.errors = [])
    (before : Written (.rows found) start cursor.tokens) :
    Written (.rows rows) start last.tokens := by
  induction fuel generalizing found cursor with
  | zero =>
      cases read
      exact before
  | succ fuel ih =>
      unfold argumentsFrom at read
      simp only [current_bind, branch_apply] at read
      split at read
      · cases read
        exact before
      · obtain ⟨item, middle, item_read, middle_clean, read⟩ :=
          bind_clean_of read clean (by
            intro item
            refine .bind inferInstance fun _ => ?_
            split <;> infer_instance)
        have middle_closed := closed_after closed item_read
        have added : Written (.rows (found.add item)) start middle.tokens :=
          .argument before (argument_written sound closed item_read middle_clean)
        simp only [current_bind] at read
        cases kind : middle.current.kind
        case comma =>
          simp only [kind, advance_bind] at read
          rw [middle_closed.tokens_of_kind kind (by decide)] at added
          exact ih middle_closed.next read (.rowComma added kind)
        case semicolon =>
          simp only [kind, advance_bind] at read
          rw [middle_closed.tokens_of_kind kind (by decide)] at added
          exact ih middle_closed.next read (.endRow added kind)
        all_goals
          simp only [kind] at read
          exact ih middle_closed read added

theorem mathCall_written [StartsInPlace deeper] (name : cursor.current.kind = .ident)
    (opening : cursor.next.current.kind = .lparen)
    (read : mathCall deeper cursor = .ok node last) (clean : last.errors = []) :
    Written (.one .math node) cursor.tokens last.tokens := by
  unfold mathCall at read
  simp only [advance_bind, remaining_bind] at read
  obtain ⟨found, middle, found_read, middle_clean, read⟩ := bind_clean read clean
  have closed_inside := (closed.next).next
  have written := argumentsFrom_written sound closed_inside found_read middle_clean .noRows
  simp only [isAt_bind, branch_apply, advance_bind] at read
  split at read
  · rename_i atCloser
    have closing := of_decide_eq_true atCloser
    cases read
    have middle_closed := closed_after closed_inside found_read
    rw [middle_closed.tokens_of_kind closing (by decide)] at written
    rw [closed.tokens_of_kind name (by decide), closed.next.tokens_of_kind opening (by decide)]
    exact .mathCall name opening written closing
  · exact (report_not_clean read clean).elim

end

end EquationMap.Grammar
