import EquationMap.Proofs.Parsing.Phrases

namespace EquationMap

open Grammar Reading

theorem Cursor.Closed.rest_next_lt {cursor : Cursor} (closed : cursor.Closed)
    (inText : cursor.current.kind ≠ .eof) : cursor.next.rest.length < cursor.rest.length := by
  have lengths := congrArg List.length (closed.tokens_next inText)
  simp only [Cursor.tokens, List.length_cons] at lengths
  omega

namespace Reading

variable {α β : Type} {cursor last : Cursor} {value : α}

theorem bind_ok {first : Reading β} {next : β → Reading α}
    (read : (first >>= next) cursor = .ok value last) :
    ∃ found middle, first cursor = .ok found middle ∧ next found middle = .ok value last := by
  rw [bind_apply] at read
  split at read
  · rename_i found middle head
    exact ⟨found, middle, head, read⟩
  · cases read

theorem passes_of_advance {next : Token → Reading α} [tail : ∀ token, Proceeds (next token)]
    (read : (advance >>= next) cursor = .ok value last) : cursor.next.Reaches last :=
  (tail cursor.current).completed read

theorem attempt_some {phrase : Reading α} (read : attempt phrase cursor = .ok (some value) last) :
    phrase cursor = .ok value last := by
  unfold attempt at read
  split at read <;> cases read
  assumption

theorem attempt_not_recover (phrase : Reading α) (cursor : Cursor) :
    attempt phrase cursor ≠ .error .recover last := by
  unfold attempt
  cases phrase cursor with
  | ok => nofun
  | error reason => cases reason <;> nofun

end Reading

namespace Grammar

variable {deeper : Phrase → Reading Node} {cursor last : Cursor} {node : Node}
  {stops : List TokenKind}

/-- Whether the atoms that are read pass the token that they begin with. -/
def PassesAtoms (deeper : Phrase → Reading Node) : Prop :=
  ∀ (stops : List TokenKind) {cursor last : Cursor} {node : Node},
    deeper (.atom stops) cursor = .ok node last → cursor.next.Reaches last

theorem sequenceFrom_not_recover {found : List Node} {fuel : Nat} :
    sequenceFrom deeper stops found fuel cursor ≠ .error .recover last := by
  induction fuel generalizing found cursor with
  | zero => rintro ⟨⟩
  | succ fuel ih =>
      unfold sequenceFrom
      simp only [endsSequence_bind, branch_apply, remaining_bind]
      split
      · rintro ⟨⟩
      · rw [bind_apply]
        cases read : attempt (fraction deeper stops) cursor with
        | error reason stop =>
            rintro ⟨⟩
            exact attempt_not_recover _ _ read
        | ok attempted middle =>
            cases attempted with
            | none =>
                simp only [remaining_bind, branch_apply, advance_bind]
                split <;> exact ih
            | some expr =>
                simp only [endsSequence_bind, branch_apply]
                split
                · cases operatorSymbol? expr <;> exact ih
                · exact ih

section

variable [forward : ∀ phrase, GoesForward (deeper phrase)]

theorem primes_passes {marks : Primes} (prime : cursor.current.kind = .prime)
    (read : primes cursor = .ok marks last) : cursor.next.Reaches last := by
  unfold primes at read
  simp only [current_bind, remaining_bind] at read
  unfold primesFrom at read
  simp only [isAt_bind, prime, decide_true, if_true, branch_apply] at read
  exact passes_of_advance read

theorem delimited_passes {closer : TokenKind}
    (read : delimited deeper closer cursor = .ok node last) : cursor.next.Reaches last := by
  unfold delimited at read
  exact passes_of_advance read

theorem mathCall_passes [StartsInPlace deeper] (read : mathCall deeper cursor = .ok node last) :
    cursor.next.Reaches last := by
  unfold mathCall at read
  exact passes_of_advance read

theorem atom_passes [StartsInPlace deeper] (read : atom deeper stops cursor = .ok node last) :
    cursor.next.Reaches last := by
  unfold atom at read
  simp only [current_bind] at read
  cases kind : cursor.current.kind <;> simp only [kind] at read
  case ident =>
    simp only [peek_bind, branch_apply] at read
    split at read
    · exact mathCall_passes read
    · exact passes_of_advance read
  case prime =>
    obtain ⟨marks, read, -⟩ := map_clean read
    exact primes_passes kind read
  case lparen | lbracket | lbrace => exact delimited_passes read
  case bar =>
    simp only [hasClosingBar_bind, branch_apply] at read
    split at read
    · exact delimited_passes read
    · exact passes_of_advance read
  case hat | underscore => cases read
  all_goals exact passes_of_advance read

theorem fraction_passes (passes : PassesAtoms deeper)
    (read : fraction deeper stops cursor = .ok node last) : cursor.next.Reaches last := by
  unfold fraction at read
  obtain ⟨num, middle, num_read, read⟩ := bind_ok read
  unfold attachment at num_read
  obtain ⟨base, afterBase, base_read, num_read⟩ := bind_ok num_read
  have num_reached : afterBase.Reaches middle := GoesForward.completed num_read
  exact ((passes stops base_read).trans num_reached).trans (GoesForward.completed read)

end

theorem phrase_passesAtoms (levels : Nat) : PassesAtoms (Grammar.phrase levels) := by
  intro stops cursor last node read
  cases levels with
  | zero => cases read
  | succ levels => exact atom_passes read

end Grammar

end EquationMap
