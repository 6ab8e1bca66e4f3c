import EquationMap.Proofs.Parsing.Passing

namespace EquationMap

/-! The loops of the grammar, turn by turn. Each turn after which a loop goes on has passed a
token, whatever the tokens are and whether or not there are faults; so no loop runs out of the
steps that it is granted, and it ends in the turn that leaves it or breaks it off. -/

open Grammar Reading

namespace Cursor

/-- Whether a later cursor is reached from an earlier one by passing at least one token. -/
structure Passes (earlier later : Cursor) : Prop where
  reaches : earlier.Reaches later
  shorter : later.rest.length < earlier.rest.length

variable {earlier middle later : Cursor}

theorem Reaches.rest_le (reaches : earlier.Reaches later) :
    later.rest.length ≤ earlier.rest.length := by
  simpa [Cursor.tokens] using reaches.tokens.length_le

theorem Passes.andThen (passes : earlier.Passes middle) (reaches : middle.Reaches later) :
    earlier.Passes later :=
  ⟨passes.reaches.trans reaches, Nat.lt_of_le_of_lt reaches.rest_le passes.shorter⟩

theorem Reaches.andThen (reaches : earlier.Reaches middle) (passes : middle.Passes later) :
    earlier.Passes later :=
  ⟨reaches.trans passes.reaches, Nat.lt_of_lt_of_le passes.shorter reaches.rest_le⟩

theorem Reaches.passes_or_same (reaches : earlier.Reaches later) :
    earlier.Passes later ∨ later.tokens = earlier.tokens := by
  rcases Nat.lt_or_eq_of_le reaches.rest_le with shorter | same
  · exact .inl ⟨reaches, shorter⟩
  · exact .inr (reaches.tokens.eq_of_length (by simpa [Cursor.tokens] using same))

/-- Nothing but the mark of the end of the text is never passed. -/
theorem Closed.passes (closed : earlier.Closed) (inText : earlier.current.kind ≠ .eof)
    (reaches : earlier.next.Reaches later) : earlier.Passes later :=
  ⟨earlier.reaches_next.trans reaches,
    Nat.lt_of_le_of_lt reaches.rest_le (closed.rest_next_lt inText)⟩

theorem endsSequence_of_tokens {stops : List TokenKind} (same : later.tokens = earlier.tokens) :
    later.endsSequence stops = earlier.endsSequence stops := by
  unfold endsSequence
  rw [(List.cons.inj same).1]

end Cursor

/-- What a turn of a loop leads to: another turn, or the value that the loop is left with. -/
inductive Turn (σ ρ : Type) where
  | again (state : σ)
  | leave (value : ρ)

def Turn.follow (loop : σ → Reading ρ) : Turn σ ρ → Reading ρ
  | again state => loop state
  | leave value => pure value

/-- What is read by taking one turn after the other, where each turn that another one follows
passes a token. -/
inductive Looped (turn : σ → Reading (Turn σ ρ)) :
    σ → Cursor → EStateM.Result Interrupt Cursor ρ → Prop
  | left {state : σ} {cursor last : Cursor} {value : ρ}
      (read : turn state cursor = .ok (.leave value) last) :
      Looped turn state cursor (.ok value last)
  | broken {state : σ} {cursor last : Cursor} {reason : Interrupt}
      (read : turn state cursor = .error reason last) :
      Looped turn state cursor (.error reason last)
  | again {state later : σ} {cursor next : Cursor} {result : EStateM.Result Interrupt Cursor ρ}
      (read : turn state cursor = .ok (.again later) next) (passes : cursor.Passes next)
      (rest : Looped turn later next result) : Looped turn state cursor result

namespace Looped

variable {turn : σ → Reading (Turn σ ρ)} {state : σ} {cursor last : Cursor} {value : ρ}

/-- A loop that takes a turn with each step granted to it does not run out of steps, if each turn
that another one follows passes a token. -/
theorem of_unfolds (turn : σ → Reading (Turn σ ρ)) (loop : Nat → σ → Reading ρ)
    (unfolds : ∀ fuel state, loop (fuel + 1) state = turn state >>= Turn.follow (loop fuel))
    (passes : ∀ {state later cursor next}, cursor.Closed →
      turn state cursor = .ok (.again later) next → cursor.Passes next)
    {fuel : Nat} (closed : cursor.Closed) (enough : cursor.rest.length < fuel) :
    Looped turn state cursor (loop fuel state cursor) := by
  induction fuel generalizing state cursor with
  | zero => contradiction
  | succ fuel ih =>
      rw [unfolds, bind_apply]
      cases read : turn state cursor with
      | error reason last => exact .broken read
      | ok found next =>
          cases found with
          | leave value => exact .left read
          | again later =>
              have passed := passes closed read
              have shorter := passed.shorter
              exact .again read passed (ih (passed.reaches.closed closed) (by omega))

theorem exists_last (looped : Looped turn state cursor (.ok value last)) :
    ∃ state here, turn state here = .ok (.leave value) last := by
  generalize completed : EStateM.Result.ok value last = result at looped
  induction looped with
  | left read =>
      cases completed
      exact ⟨_, _, read⟩
  | broken => cases completed
  | again _ _ _ ih => exact ih completed

end Looped

theorem Reading.ite_bind {condition : Prop} [Decidable condition] (left right : Reading α)
    (next : α → Reading β) :
    (if condition then left else right) >>= next =
      if condition then left >>= next else right >>= next := by
  split <;> rfl

namespace Grammar

variable {cursor last next : Cursor}

/-! Prime marks. -/

def primesTurn : Nat × ByteRange → Reading (Turn (Nat × ByteRange) Primes)
  | (count, last) => do
      if ← Reading.isAt .prime then
        let mark ← Reading.advance
        return .again (count + 1, .cover last mark.range)
      else return .leave ⟨count, { range := last }⟩

theorem primesTurn_passes {state later : Nat × ByteRange} (closed : cursor.Closed)
    (read : primesTurn state cursor = .ok (.again later) next) : cursor.Passes next := by
  unfold primesTurn at read
  simp only [isAt_bind, branch_apply] at read
  split at read
  · rename_i atPrime
    have inText : cursor.current.kind ≠ .eof := by simp [of_decide_eq_true atPrime]
    exact closed.passes inText (passes_of_advance read)
  · cases read

theorem primesFrom_looped (closed : cursor.Closed) (count : Nat) (range : ByteRange) :
    Looped primesTurn (count, range) cursor
      (primesFrom count range (cursor.rest.length + 1) cursor) := by
  refine .of_unfolds primesTurn (fun fuel state => primesFrom state.1 state.2 fuel) ?_
    primesTurn_passes closed (Nat.lt_succ_self _)
  intro fuel state
  rw [primesFrom]
  simp only [primesTurn, ite_bind, bind_assoc, pure_bind, Turn.follow]

section

variable (deeper : Phrase → Reading Node)

/-! Sequences. A faulty expression is left out, and the place where it broke off is passed if it
broke off at its beginning. -/

def sequenceTurn (stops : List TokenKind) (found : List Node) :
    Reading (Turn (List Node) (List Node)) := do
  if ← Reading.endsSequence stops then return .leave found.reverse
  else
    let before ← Reading.remaining
    match ← Reading.attempt (fraction deeper stops) with
    | none =>
        if (← Reading.remaining) = before then
          let _ ← Reading.advance
        return .again found
    | some expr =>
        if !found.isEmpty && (← Reading.endsSequence stops) then
          match operatorSymbol? expr with
          | some symbol => Reading.report (.missingOperand symbol) expr.range
          | none => pure ()
        return .again (expr :: found)

/-! Arguments of calls in mathematics. -/

def argumentTurn (found : ArgumentRows) : Reading (Turn ArgumentRows ArgumentRows) := do
  let token ← Reading.current
  if token.kind = .rparen ∨ token.kind = .eof then return .leave found
  else
    let found := found.add (← argument deeper)
    match (← Reading.current).kind with
    | .comma =>
        let _ ← Reading.advance
        return .again found
    | .semicolon =>
        let _ ← Reading.advance
        return .again found.endRow
    | _ => return .again found

/-! Items of groups and arguments of calls in code, and the blocks attached to a call. -/

def itemTurn : List Node × Bool → Reading (Turn (List Node × Bool) (List Node × Bool))
  | (found, afterComma) => do
      let token ← Reading.current
      if token.kind = .rparen ∨ token.kind = .eof then
        return .leave (found.reverse, afterComma)
      else
        let item ← codeItem deeper
        if ← Reading.isAt .comma then
          let _ ← Reading.advance
          return .again (item :: found, true)
        else return .leave ((item :: found).reverse, false)

def codeArgumentTurn (found : List Node) : Reading (Turn (List Node) (List Node)) := do
  let token ← Reading.current
  if token.kind = .rparen ∨ token.kind = .eof then return .leave found.reverse
  else
    let item ← codeArgument (← codeItem deeper)
    if ← Reading.isAt .comma then
      let _ ← Reading.advance
      return .again (item :: found)
    else return .leave (item :: found).reverse

def attachedBlockTurn :
    List Node × ByteRange → Reading (Turn (List Node × ByteRange) (List Node × ByteRange))
  | (found, last) => do
      let token ← Reading.current
      if token.kind = .lbracket ∧ last.stop = token.range.start then
        let block ← contentBlock deeper
        return .again (block :: found, block.range)
      else return .leave (found.reverse, last)

end

section

variable {deeper : Phrase → Reading Node} [forward : ∀ phrase, GoesForward (deeper phrase)]
  {stops : List TokenKind}

theorem sequenceTurn_passes (passes : PassesAtoms deeper) {found later : List Node}
    (closed : cursor.Closed)
    (read : sequenceTurn deeper stops found cursor = .ok (.again later) next) :
    cursor.Passes next := by
  unfold sequenceTurn at read
  simp only [endsSequence_bind, branch_apply, remaining_bind] at read
  split at read
  · cases read
  · rename_i goesOn
    have inText := inText_of_not_endsSequence goesOn
    obtain ⟨attempted, middle, attempted_read, read⟩ := bind_ok read
    have reached : cursor.Reaches middle := GoesForward.completed attempted_read
    cases attempted with
    | none =>
        simp only [remaining_bind, branch_apply, advance_bind] at read
        split at read
        · rename_i same
          cases read
          -- The expression broke off where it began, and the turn itself passes the token there.
          have here : middle.tokens = cursor.tokens :=
            reached.tokens.eq_of_length (by simpa [Cursor.tokens] using same)
          have current : middle.current = cursor.current := (List.cons.inj here).1
          exact reached.andThen
            ((reached.closed closed).passes (current ▸ inText) (.refl _))
        · rename_i moved
          cases read
          exact ⟨reached, Nat.lt_of_le_of_ne reached.rest_le moved⟩
    | some expr =>
        have passed := closed.passes inText (fraction_passes passes (attempt_some attempted_read))
        simp only [endsSequence_bind, branch_apply] at read
        split at read
        · cases dangling : operatorSymbol? expr with
          | none =>
              simp only [dangling] at read
              cases read
              exact passed
          | some symbol =>
              simp only [dangling] at read
              cases read
              exact passed.andThen (middle.reaches_report _ _)
        · cases read
          exact passed

omit forward in
theorem sequenceTurn_left {found nodes : List Node}
    (read : sequenceTurn deeper stops found cursor = .ok (.leave nodes) last) :
    last.endsSequence stops = true := by
  unfold sequenceTurn at read
  simp only [endsSequence_bind, branch_apply, remaining_bind] at read
  split at read
  · rename_i ends
    cases read
    exact ends
  · obtain ⟨attempted, middle, -, read⟩ := bind_ok read
    cases attempted with
    | none =>
        simp only [remaining_bind, branch_apply, advance_bind] at read
        split at read <;> cases read
    | some expr =>
        simp only [endsSequence_bind, branch_apply] at read
        split at read
        · cases dangling : operatorSymbol? expr <;> simp only [dangling] at read <;> cases read
        · cases read

theorem sequence_looped (passes : PassesAtoms deeper) (closed : cursor.Closed)
    (stops : List TokenKind) :
    Looped (sequenceTurn deeper stops) [] cursor (sequence deeper stops cursor) := by
  refine .of_unfolds (sequenceTurn deeper stops)
    (fun fuel found => sequenceFrom deeper stops found fuel) ?_
    (sequenceTurn_passes passes) closed (Nat.lt_succ_self _)
  intro fuel found
  rw [sequenceFrom]
  simp only [sequenceTurn, ite_bind, bind_assoc, pure_bind, Turn.follow]
  refine bind_congr fun _ => ?_
  split
  · rfl
  · refine bind_congr fun _ => bind_congr fun attempted => ?_
    cases attempted with
    | none => simp only [ite_bind, bind_assoc, pure_bind, Turn.follow]
    | some expr =>
        simp only [ite_bind, bind_assoc, pure_bind, Turn.follow]
        refine bind_congr fun _ => ?_
        split
        · cases operatorSymbol? expr <;> simp only [bind_assoc, pure_bind, Turn.follow]
        · rfl

theorem sequence_reaches_end (passes : PassesAtoms deeper) {nodes : List Node}
    (closed : cursor.Closed) (read : sequence deeper stops cursor = .ok nodes last) :
    last.endsSequence stops = true := by
  have looped := sequence_looped passes closed stops
  rw [read] at looped
  obtain ⟨found, here, left⟩ := looped.exists_last
  exact sequenceTurn_left left

theorem sequence_passes (passes : PassesAtoms deeper) {nodes : List Node}
    (closed : cursor.Closed) (goesOn : ¬cursor.endsSequence stops = true)
    (read : sequence deeper stops cursor = .ok nodes last) : cursor.Passes last := by
  have reached : cursor.Reaches last := GoesForward.completed read
  rcases reached.passes_or_same with passed | same
  · exact passed
  · rw [← Cursor.endsSequence_of_tokens same] at goesOn
    exact absurd (sequence_reaches_end passes closed read) goesOn

omit forward in
theorem sequence_of_argumentValue {node : Node}
    (read : argumentValue deeper cursor = .ok node last) :
    ∃ exprs, sequence deeper argumentStops cursor = .ok exprs last := by
  unfold argumentValue at read
  simp only [current_bind] at read
  obtain ⟨exprs, middle, sequence_read, read⟩ := bind_ok read
  have of_range {start stop : Nat} {found : List Node}
      (read : (do
        let range ← Reading.range start stop
        return Node.math found { range }) middle = .ok node last) : middle = last := by
    obtain ⟨range, after, range_read, made⟩ := bind_ok read
    obtain ⟨-, -, same⟩ := range_ok range_read
    cases made
    exact same.symm
  refine ⟨exprs, ?_⟩
  rcases exprs with _ | ⟨expr, _ | ⟨second, others⟩⟩
  · exact of_range read ▸ sequence_read
  · cases read
    exact sequence_read
  · exact of_range read ▸ sequence_read

theorem argument_passes [StartsInPlace deeper] (passes : PassesAtoms deeper) {node : Node}
    (closed : cursor.Closed) (inText : cursor.current.kind ≠ .eof)
    (read : argument deeper cursor = .ok node last) :
    cursor.Passes last ∨
      (last.tokens = cursor.tokens ∧ cursor.current.kind ∈ argumentStops) := by
  have reached : cursor.Reaches last := GoesForward.completed read
  unfold argument at read
  simp only [current_bind, peek_bind, branch_apply] at read
  split at read
  · exact .inl (closed.passes inText (passes_of_advance read))
  · obtain ⟨exprs, read⟩ := sequence_of_argumentValue read
    by_cases ends : cursor.endsSequence argumentStops = true
    · rcases reached.passes_or_same with passed | same
      · exact .inl passed
      · refine .inr ⟨same, ?_⟩
        unfold Cursor.endsSequence at ends
        simpa [inText] using ends
    · exact .inl (sequence_passes passes closed ends read)

theorem argumentTurn_passes [StartsInPlace deeper] (passes : PassesAtoms deeper)
    {found later : ArgumentRows} (closed : cursor.Closed)
    (read : argumentTurn deeper found cursor = .ok (.again later) next) :
    cursor.Passes next := by
  unfold argumentTurn at read
  simp only [current_bind, branch_apply] at read
  split at read
  · cases read
  · rename_i inArguments
    rw [not_or] at inArguments
    obtain ⟨node, middle, argument_read, read⟩ := bind_ok read
    rcases argument_passes passes closed inArguments.2 argument_read with passed | ⟨same, stop⟩
    · refine passed.andThen ((GoesForward.bind inferInstance fun token => ?_).completed read)
      split <;> infer_instance
    · -- The argument is empty, and the turn passes the separator that it stopped at.
      have reached : cursor.Reaches middle := GoesForward.completed argument_read
      have current : middle.current = cursor.current := (List.cons.inj same).1
      have passed : middle.Passes middle.next :=
        (reached.closed closed).passes (current ▸ inArguments.2) (.refl _)
      have separates : cursor.current.kind = .comma ∨ cursor.current.kind = .semicolon := by
        simpa [argumentStops, inArguments.1] using stop
      rcases separates with kind | kind
      · simp only [current_bind, current, kind] at read
        cases read
        exact reached.andThen passed
      · simp only [current_bind, current, kind] at read
        cases read
        exact reached.andThen passed

theorem arguments_looped [StartsInPlace deeper] (passes : PassesAtoms deeper)
    (closed : cursor.Closed) :
    Looped (argumentTurn deeper) {} cursor
      (argumentsFrom deeper {} (cursor.rest.length + 1) cursor) := by
  refine .of_unfolds (argumentTurn deeper) (fun fuel found => argumentsFrom deeper found fuel) ?_
    (argumentTurn_passes passes) closed (Nat.lt_succ_self _)
  intro fuel found
  rw [argumentsFrom]
  simp only [argumentTurn, ite_bind, bind_assoc, pure_bind, Turn.follow]
  refine bind_congr fun token => ?_
  split
  · rfl
  · refine bind_congr fun node => bind_congr fun next => ?_
    cases next.kind <;> simp only [bind_assoc, pure_bind, Turn.follow]

theorem passes_of_comma {item : Reading α} [GoesForward item] {value : α} {middle : Cursor}
    (closed : cursor.Closed) (read : item cursor = .ok value middle)
    (comma : middle.current.kind = .comma) : cursor.Passes middle.next := by
  have reached : cursor.Reaches middle := GoesForward.completed read
  exact reached.andThen ((reached.closed closed).passes (by simp [comma]) (.refl _))

theorem itemTurn_passes {state later : List Node × Bool} (closed : cursor.Closed)
    (read : itemTurn deeper state cursor = .ok (.again later) next) : cursor.Passes next := by
  unfold itemTurn at read
  simp only [current_bind, branch_apply] at read
  split at read
  · cases read
  · obtain ⟨item, middle, item_read, read⟩ := bind_ok read
    simp only [isAt_bind, branch_apply, advance_bind] at read
    split at read
    · rename_i comma
      cases read
      exact passes_of_comma closed item_read (of_decide_eq_true comma)
    · cases read

theorem items_looped (closed : cursor.Closed) :
    Looped (itemTurn deeper) ([], false) cursor
      (codeItemsFrom deeper [] false (cursor.rest.length + 1) cursor) := by
  refine .of_unfolds (itemTurn deeper)
    (fun fuel state => codeItemsFrom deeper state.1 state.2 fuel) ?_
    itemTurn_passes closed (Nat.lt_succ_self _)
  intro fuel state
  rw [codeItemsFrom]
  simp only [itemTurn, ite_bind, bind_assoc, pure_bind, Turn.follow]

theorem codeArgumentTurn_passes {found later : List Node} (closed : cursor.Closed)
    (read : codeArgumentTurn deeper found cursor = .ok (.again later) next) :
    cursor.Passes next := by
  unfold codeArgumentTurn at read
  simp only [current_bind, branch_apply] at read
  split at read
  · cases read
  · rw [← bind_assoc] at read
    obtain ⟨item, middle, item_read, read⟩ := bind_ok read
    simp only [isAt_bind, branch_apply, advance_bind] at read
    split at read
    · rename_i comma
      cases read
      exact passes_of_comma closed item_read (of_decide_eq_true comma)
    · cases read

theorem codeArguments_looped (closed : cursor.Closed) :
    Looped (codeArgumentTurn deeper) [] cursor
      (codeArgumentsFrom deeper [] (cursor.rest.length + 1) cursor) := by
  refine .of_unfolds (codeArgumentTurn deeper)
    (fun fuel found => codeArgumentsFrom deeper found fuel) ?_
    codeArgumentTurn_passes closed (Nat.lt_succ_self _)
  intro fuel found
  rw [codeArgumentsFrom]
  simp only [codeArgumentTurn, ite_bind, bind_assoc, pure_bind, Turn.follow]

theorem contentBlock_passes {node : Node}
    (read : contentBlock deeper cursor = .ok node last) : cursor.next.Reaches last := by
  unfold contentBlock at read
  exact passes_of_advance read

theorem attachedBlockTurn_passes {state later : List Node × ByteRange} (closed : cursor.Closed)
    (read : attachedBlockTurn deeper state cursor = .ok (.again later) next) :
    cursor.Passes next := by
  unfold attachedBlockTurn at read
  simp only [current_bind, branch_apply] at read
  split at read
  · rename_i attached
    obtain ⟨block, middle, block_read, read⟩ := bind_ok read
    cases read
    exact closed.passes (by simp [attached.1]) (contentBlock_passes block_read)
  · cases read

theorem attachedBlocks_looped (closed : cursor.Closed) (range : ByteRange) :
    Looped (attachedBlockTurn deeper) ([], range) cursor
      (attachedBlocksFrom deeper [] range (cursor.rest.length + 1) cursor) := by
  refine .of_unfolds (attachedBlockTurn deeper)
    (fun fuel state => attachedBlocksFrom deeper state.1 state.2 fuel) ?_
    attachedBlockTurn_passes closed (Nat.lt_succ_self _)
  intro fuel state
  rw [attachedBlocksFrom]
  simp only [attachedBlockTurn, ite_bind, bind_assoc, pure_bind, Turn.follow]

end

/-! Loops whose turns each take up a level: fractions of fractions, calls and fields one after the
other, and operators. The state is the number of levels left and the node read so far. -/

/-- Reads on one level deeper, unless no level is left. -/
def descend (levels : Nat) (mark : ByteRange) (inner : Nat → Reading α) : Reading α :=
  match levels with
  | 0 => fun cursor => .error .tooDeep (cursor.report .parsedTooDeep mark)
  | levels + 1 => inner levels

instance (levels : Nat) (mark : ByteRange) (inner : Nat → Reading α)
    [forward : ∀ levels, GoesForward (inner levels)] : GoesForward (descend levels mark inner) := by
  cases levels with
  | zero => exact .abandoning fun _ => mark
  | succ levels => exact forward levels

def fractionTurn (stops : List TokenKind) : Nat × Node → Reading (Turn (Nat × Node) Node)
  | (levels, num) => do
      if ← Reading.isAt .slash then
        let slash ← Reading.advance
        if ← Reading.endsSequence stops then
          Reading.report .missingDenominator slash.range
          return .leave num
        else
          descend levels slash.range fun levels => do
            let denom ← attachment (phrase levels) stops none
            return .again
              (levels, .frac num denom { range := .cover num.range denom.range })
      else return .leave num

def tailTurn : Nat × Node → Reading (Turn (Nat × Node) Node)
  | (levels, expr) => do
      let token ← Reading.current
      let attached := expr.range.stop = token.range.start
      if token.kind = .lparen ∧ attached then
        descend levels token.range fun levels => do
          let call ← codeCall (phrase levels) expr
          return .again (levels, call)
      else if token.kind = .lbracket ∧ attached then
        descend levels token.range fun levels => do
          let block ← contentBlock (phrase levels)
          return .again (levels, .call expr [block] { range := block.range }
            { range := .cover expr.range block.range })
      else if token.kind = .dot then
        descend levels token.range fun levels => do
          let _ ← Reading.advance
          let name ← Reading.expect .ident
          return .again (levels, .field expr name.value
            { range := .cover expr.range name.range })
      else return .leave expr

def operatorTurn (power : Nat) : Nat × Node → Reading (Turn (Nat × Node) Node)
  | (levels, lhs) => do
      match BinaryOp.ofKind? (← Reading.current).kind with
      | none => return .leave lhs
      | some op =>
          if op.leftPower < power then return .leave lhs
          else
            let mark ← Reading.advance
            descend levels mark.range fun levels => do
              let rhs ← phrase levels (.expression op.rightPower)
              return .again
                (levels, .binary lhs op rhs { range := .cover lhs.range rhs.range })

theorem fractionTurn_passes {stops : List TokenKind} {state later : Nat × Node}
    (closed : cursor.Closed)
    (read : fractionTurn stops state cursor = .ok (.again later) next) : cursor.Passes next := by
  unfold fractionTurn at read
  simp only [isAt_bind, branch_apply] at read
  split at read
  · rename_i slash
    have inText : cursor.current.kind ≠ .eof := by simp [of_decide_eq_true slash]
    exact closed.passes inText (passes_of_advance read)
  · cases read

theorem fractions_looped (closed : cursor.Closed) (levels : Nat) (stops : List TokenKind)
    (num : Node) :
    Looped (fractionTurn stops) (levels, num) cursor
      (fractionFrom (phrase levels) stops num cursor) := by
  refine .of_unfolds (fractionTurn stops)
    (fun _ state => fractionFrom (phrase state.1) stops state.2) ?_
    fractionTurn_passes closed (Nat.lt_succ_self _)
  rintro - ⟨levels, num⟩
  dsimp only
  rw [fractionFrom]
  simp only [fractionTurn, ite_bind, bind_assoc, pure_bind, Turn.follow]
  refine bind_congr fun _ => ?_
  split
  · refine bind_congr fun slash => bind_congr fun _ => ?_
    split
    · rfl
    · cases levels with
      | zero => rfl
      | succ levels =>
          simp only [phrase, body, descend, bind_assoc, pure_bind, Turn.follow]
  · rfl

theorem codeCall_passes {deeper : Phrase → Reading Node}
    [forward : ∀ phrase, GoesForward (deeper phrase)] {callee node : Node}
    (read : codeCall deeper callee cursor = .ok node last) : cursor.next.Reaches last := by
  unfold codeCall at read
  exact passes_of_advance read

theorem of_descend {levels : Nat} {mark : ByteRange} {inner : Nat → Reading α} {value : α}
    (read : descend levels mark inner cursor = .ok value last) :
    ∃ fewer, inner fewer cursor = .ok value last := by
  cases levels with
  | zero => cases read
  | succ levels => exact ⟨levels, read⟩

theorem tailTurn_passes {state later : Nat × Node} (closed : cursor.Closed)
    (read : tailTurn state cursor = .ok (.again later) next) : cursor.Passes next := by
  unfold tailTurn at read
  simp only [current_bind, branch_apply] at read
  split at read
  · rename_i paren
    obtain ⟨fewer, read⟩ := of_descend read
    obtain ⟨call, middle, call_read, read⟩ := bind_ok read
    cases read
    exact closed.passes (by simp [paren.1]) (codeCall_passes call_read)
  · split at read
    · rename_i bracket
      obtain ⟨fewer, read⟩ := of_descend read
      obtain ⟨block, middle, block_read, read⟩ := bind_ok read
      cases read
      exact closed.passes (by simp [bracket.1]) (contentBlock_passes block_read)
    · split at read
      · rename_i dot
        obtain ⟨fewer, read⟩ := of_descend read
        exact closed.passes (by simp [dot]) (passes_of_advance read)
      · cases read

theorem tail_looped (closed : cursor.Closed) (levels : Nat) (expr : Node) :
    Looped tailTurn (levels, expr) cursor (codeTail (phrase levels) expr cursor) := by
  refine .of_unfolds tailTurn (fun _ state => codeTail (phrase state.1) state.2) ?_
    tailTurn_passes closed (Nat.lt_succ_self _)
  rintro - ⟨levels, expr⟩
  funext cursor
  dsimp only
  rw [codeTail]
  simp only [tailTurn, ite_bind, bind_assoc, pure_bind, Turn.follow, current_bind, branch_apply]
  cases levels with
  | zero => rfl
  | succ levels => simp only [phrase, body, descend, bind_assoc, pure_bind, Turn.follow]

theorem operatorTurn_passes {power : Nat} {state later : Nat × Node} (closed : cursor.Closed)
    (read : operatorTurn power state cursor = .ok (.again later) next) : cursor.Passes next := by
  unfold operatorTurn at read
  simp only [current_bind] at read
  cases written : BinaryOp.ofKind? cursor.current.kind with
  | none =>
      simp only [written] at read
      cases read
  | some op =>
      simp only [written, branch_apply] at read
      split at read
      · cases read
      · have inText : cursor.current.kind ≠ .eof := by
          intro atEnd
          rw [atEnd] at written
          cases written
        exact closed.passes inText (passes_of_advance read)

theorem operators_looped (closed : cursor.Closed) (levels power : Nat) (lhs : Node) :
    Looped (operatorTurn power) (levels, lhs) cursor
      (expressionFrom (phrase levels) power lhs cursor) := by
  refine .of_unfolds (operatorTurn power)
    (fun _ state => expressionFrom (phrase state.1) power state.2) ?_
    operatorTurn_passes closed (Nat.lt_succ_self _)
  rintro - ⟨levels, lhs⟩
  dsimp only
  rw [expressionFrom]
  simp only [operatorTurn, bind_assoc]
  refine bind_congr fun token => ?_
  cases BinaryOp.ofKind? token.kind with
  | none => rfl
  | some op =>
      simp only [ite_bind, bind_assoc, pure_bind, Turn.follow]
      split
      · rfl
      · refine bind_congr fun mark => ?_
        cases levels with
        | zero => rfl
        | succ levels =>
            simp only [phrase, body, descend, bind_assoc, pure_bind, Turn.follow]

end Grammar

end EquationMap
