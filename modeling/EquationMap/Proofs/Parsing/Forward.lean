import EquationMap.Proofs.Parsing.Starting

namespace EquationMap.Grammar

/-! Every phrase of the grammar is read forward. -/

open Reading

instance (stops : List TokenKind) : GoesForward (hasClosingBar stops) :=
  .looking _

theorem hasClosingBar_bind {stops : List TokenKind} {next : Bool → Reading α} {cursor : Cursor} :
    (hasClosingBar stops >>= next) cursor = next (closesBar stops 0 cursor.rest) cursor :=
  rfl

instance (count : Nat) (last : ByteRange) (fuel : Nat) :
    GoesForward (primesFrom count last fuel) := by
  induction fuel generalizing count last with
  | zero =>
      unfold primesFrom
      infer_instance
  | succ fuel ih =>
      unfold primesFrom
      infer_instance

instance : GoesForward primes := by
  unfold primes
  infer_instance

instance (items : List Node) (afterComma : Bool) (place : Place) :
    GoesForward (groupOf items afterComma place) := by
  unfold groupOf
  refine .ite ?_ ?_
  · dsimp only
    infer_instance
  · split <;> infer_instance

instance (item : Node) : GoesForward (codeArgument item) := by
  unfold codeArgument
  split <;> infer_instance

section

variable (deeper : Phrase → Reading Node) [∀ phrase, GoesForward (deeper phrase)]

instance (stops : List TokenKind) (num : Node) :
    GoesForward (fractionFrom deeper stops num) := by
  unfold fractionFrom
  infer_instance

instance (side : ScriptSide) (mark : Token) (stops : List TokenKind)
    (stop : Option ScriptSide) : GoesForward (script deeper side mark stops stop) := by
  unfold script
  infer_instance

instance (side : ScriptSide) (stops : List TokenKind) (found : Scripts) :
    GoesForward (secondScript deeper side stops found) := by
  unfold secondScript
  refine .bind inferInstance fun _ => .ite ?_ inferInstance
  refine .bind inferInstance fun _ => .bind inferInstance fun _ => ?_
  split <;> infer_instance

instance (stops : List TokenKind) (stop : Option ScriptSide) :
    GoesForward (scripts deeper stops stop) := by
  unfold scripts
  refine .bind inferInstance fun _ => ?_
  split
  · infer_instance
  · refine .ite inferInstance (.bind inferInstance fun _ => .bind inferInstance fun _ => ?_)
    split <;> infer_instance

instance (stops : List TokenKind) (stop : Option ScriptSide) :
    GoesForward (attachment deeper stops stop) := by
  unfold attachment
  infer_instance

instance (stops : List TokenKind) : GoesForward (fraction deeper stops) := by
  unfold fraction
  infer_instance

instance (stops : List TokenKind) (found : List Node) (fuel : Nat) :
    GoesForward (sequenceFrom deeper stops found fuel) := by
  induction fuel generalizing found with
  | zero =>
      unfold sequenceFrom
      infer_instance
  | succ fuel ih =>
      unfold sequenceFrom
      refine .bind inferInstance fun _ => .ite inferInstance ?_
      refine .bind inferInstance fun _ => .bind inferInstance fun _ => ?_
      split
      · infer_instance
      · refine .bind inferInstance fun _ => .ite ?_ inferInstance
        split
        · exact .bind inferInstance fun _ => ih _
        · exact ih _

instance (stops : List TokenKind) : GoesForward (sequence deeper stops) := by
  unfold sequence
  infer_instance

instance (closer : TokenKind) : GoesForward (delimited deeper closer) := by
  refine .of_goesOn fun start => ?_
  unfold delimited
  refine (GoesForward.goesOn inferInstance (.refl start)).bind fun opening second opened _ => ?_
  cases opened
  refine (GoesForward.goesOn inferInstance start.reaches_next).bind fun body third _ passed => ?_
  have reached := start.reaches_next.trans passed
  have ordered (tokens : start.Ordered) :
      start.current.range.stop ≤ third.current.range.start :=
    tokens.le_of_next (passed.tokens.subset List.mem_cons_self)
  refine (GoesForward.goesOn inferInstance reached).bind fun atCloser fourth looked _ => ?_
  cases looked
  split
  · refine (GoesForward.goesOn inferInstance reached).bind fun token fifth closed after => ?_
    cases closed
    exact (goesOn_range ordered).bind fun inside _ _ made =>
      GoesForward.goesOn inferInstance ((reached.trans after).trans made)
  · refine (GoesForward.goesOn inferInstance reached).bind fun _ fifth reported after => ?_
    cases reported
    refine (GoesForward.goesOn inferInstance (reached.trans after)).bind
      fun token sixth looked _ => ?_
    cases looked
    exact (goesOn_range ordered).bind fun inside _ _ made =>
      GoesForward.goesOn inferInstance ((reached.trans after).trans made)

section

variable {tokens : List Token}

def StartsAmong (tokens : List Token) (node : Node) : Prop :=
  ∃ first ∈ tokens, node.range.start = first.range.start

/-- What a turn of a sequence leads to: the same nodes again, or one more that starts among the
tokens of the sequence. -/
theorem attempt_fraction_starts [StartsInPlace deeper] {stops : List TokenKind}
    {start last : Cursor} {found : Option Node} (among : start.tokens ⊆ tokens)
    (read : attempt (fraction deeper stops) start = .ok found last) :
    last.tokens ⊆ tokens ∧ ∀ node ∈ found, StartsAmong tokens node := by
  refine ⟨List.Subset.trans (GoesForward.completed read).tokens.subset among, ?_⟩
  rintro node ⟨⟩
  unfold attempt at read
  split at read <;> cases read
  rename_i inner
  obtain ⟨first, member, starts⟩ := fraction_startsAt deeper _ _ _ rfl inner
  exact ⟨first, among member, starts⟩

theorem sequenceFrom_starts [StartsInPlace deeper] {stops : List TokenKind}
    {found nodes : List Node} {fuel : Nat} {start last : Cursor} (among : start.tokens ⊆ tokens)
    (known : ∀ node ∈ found, StartsAmong tokens node)
    (read : sequenceFrom deeper stops found fuel start = .ok nodes last) :
    ∀ node ∈ nodes, StartsAmong tokens node := by
  have reversed : ∀ node ∈ found.reverse, StartsAmong tokens node :=
    fun node member => known node (List.mem_reverse.mp member)
  induction fuel generalizing found start with
  | zero =>
      cases read
      exact reversed
  | succ fuel induction =>
      have again {found : List Node} {start : Cursor} (among : start.tokens ⊆ tokens)
          (known : ∀ node ∈ found, StartsAmong tokens node)
          (read : sequenceFrom deeper stops found fuel start = .ok nodes last) :=
        induction among known read fun node member => known node (List.mem_reverse.mp member)
      unfold sequenceFrom at read
      simp only [endsSequence_bind, remaining_bind, branch_apply] at read
      split at read
      · cases read
        exact reversed
      · rw [bind_apply] at read
        split at read
        · rename_i attempted between attempt_read
          obtain ⟨later, starts⟩ := attempt_fraction_starts deeper among attempt_read
          cases attempted with
          | none =>
              simp only [remaining_bind, branch_apply] at read
              split at read
              · exact again (List.Subset.trans between.reaches_next.tokens.subset later) known read
              · exact again later known read
          | some expr =>
              have more : ∀ node ∈ expr :: found, StartsAmong tokens node :=
                List.forall_mem_cons.mpr ⟨starts expr rfl, known⟩
              simp only [endsSequence_bind, branch_apply] at read
              split at read
              · cases symbol : operatorSymbol? expr with
                | none =>
                    rw [symbol] at read
                    exact again later more read
                | some operator =>
                    rw [symbol] at read
                    have reported := between.reaches_report (.missingOperand operator) expr.range
                    exact again (List.Subset.trans reported.tokens.subset later) more read
              · exact again later more read
        · cases read

theorem start_le_of_sequence [StartsInPlace deeper] {stops : List TokenKind} {exprs : List Node}
    {start last : Cursor} (ordered : start.Ordered)
    (read : sequence deeper stops start = .ok exprs last) :
    start.current.range.start ≤
      (exprs.getLast?.map fun expr => expr.range.stop).getD start.current.range.start := by
  have among : ∀ expr ∈ exprs, StartsAmong start.tokens expr :=
    sequenceFrom_starts deeper (List.Subset.refl _) (by simp) read
  cases last : exprs.getLast? with
  | none => exact Nat.le_refl _
  | some expr =>
      obtain ⟨first, member, starts⟩ := among expr (List.mem_of_getLast? last)
      have before := ordered.current_le member
      rw [← starts] at before
      exact Nat.le_trans before expr.range.ordered

end

instance [StartsInPlace deeper] : GoesForward (argumentValue deeper) := by
  refine .of_goesOn fun start => ?_
  unfold argumentValue
  refine (GoesForward.goesOn inferInstance (.refl start)).bind fun token second looked _ => ?_
  cases looked
  refine (GoesForward.goesOn inferInstance (.refl start)).bind fun exprs third read reached => ?_
  split
  · exact GoesForward.goesOn inferInstance reached
  · exact (goesOn_range fun ordered => start_le_of_sequence deeper ordered read).bind
      fun range _ _ made => GoesForward.goesOn inferInstance (reached.trans made)

variable [StartsInPlace deeper]

instance : GoesForward (argument deeper) := by
  unfold argument
  infer_instance

instance (found : ArgumentRows) (fuel : Nat) :
    GoesForward (argumentsFrom deeper found fuel) := by
  induction fuel generalizing found with
  | zero =>
      unfold argumentsFrom
      infer_instance
  | succ fuel ih =>
      unfold argumentsFrom
      refine .bind inferInstance fun _ => .ite inferInstance ?_
      refine .bind inferInstance fun _ => .bind inferInstance fun _ => ?_
      split <;> infer_instance

instance : GoesForward (mathCall deeper) := by
  unfold mathCall
  infer_instance

instance : GoesForward (contentBlock deeper) := by
  unfold contentBlock
  infer_instance

instance : GoesForward (codeItem deeper) := by
  unfold codeItem
  refine .bind inferInstance fun _ => .ite inferInstance ?_
  refine .bind inferInstance fun _ => .bind inferInstance fun _ => .ite ?_ inferInstance
  refine .bind inferInstance fun _ => .bind inferInstance fun _ => ?_
  dsimp only
  split <;> infer_instance

instance (found : List Node) (afterComma : Bool) (fuel : Nat) :
    GoesForward (codeItemsFrom deeper found afterComma fuel) := by
  induction fuel generalizing found afterComma with
  | zero =>
      unfold codeItemsFrom
      infer_instance
  | succ fuel ih =>
      unfold codeItemsFrom
      infer_instance

instance : GoesForward (codeItems deeper) := by
  unfold codeItems
  infer_instance

instance : GoesForward (codeGroup deeper) := by
  unfold codeGroup
  infer_instance

instance : GoesForward (codeAtom deeper) := by
  unfold codeAtom
  refine .of_current fun token => ?_
  dsimp only
  split
  case h_2 atInt =>
    cases read : Decimal.readInteger token.value with
    | ok value => exact .inl inferInstance
    | error fault => exact .inr ⟨fault, .inl ⟨atInt, read⟩, rfl⟩
  case h_3 atFloat =>
    cases read : Decimal.readNumeral? token.value.toList with
    | some value => exact .inl inferInstance
    | none => exact .inr ⟨_, .inr ⟨atFloat, read, rfl⟩, rfl⟩
  all_goals exact .inl inferInstance

instance (expr : Node) : GoesForward (codeTail deeper expr) := by
  unfold codeTail
  infer_instance

instance (found : List Node) (fuel : Nat) :
    GoesForward (codeArgumentsFrom deeper found fuel) := by
  induction fuel generalizing found with
  | zero =>
      unfold codeArgumentsFrom
      infer_instance
  | succ fuel ih =>
      unfold codeArgumentsFrom
      infer_instance

instance (found : List Node) (last : ByteRange) (fuel : Nat) :
    GoesForward (attachedBlocksFrom deeper found last fuel) := by
  induction fuel generalizing found last with
  | zero =>
      unfold attachedBlocksFrom
      infer_instance
  | succ fuel ih =>
      unfold attachedBlocksFrom
      infer_instance

instance (callee : Node) : GoesForward (codeCall deeper callee) := by
  unfold codeCall
  infer_instance

instance (power : Nat) (lhs : Node) : GoesForward (expressionFrom deeper power lhs) := by
  unfold expressionFrom
  refine .bind inferInstance fun _ => ?_
  split <;> infer_instance

instance : GoesForward (codeOperand deeper) := by
  unfold codeOperand
  refine .bind inferInstance fun _ => ?_
  split <;> infer_instance

instance (stops : List TokenKind) : GoesForward (atom deeper stops) := by
  unfold atom
  refine .bind inferInstance fun _ => ?_
  dsimp only
  split <;> infer_instance

instance (phrase : Phrase) : GoesForward (body deeper phrase) := by
  unfold body
  split <;> infer_instance

end

instance (levels : Nat) (phrase : Phrase) : GoesForward (Grammar.phrase levels phrase) := by
  induction levels generalizing phrase with
  | zero => exact .abandoning fun cursor => phrase.mark cursor
  | succ levels ih =>
      unfold Grammar.phrase
      infer_instance

end EquationMap.Grammar
