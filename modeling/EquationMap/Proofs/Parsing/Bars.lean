import EquationMap.Proofs.Parsing.Staying
import EquationMap.Proofs.Parsing.Turns

namespace EquationMap

/-! Which bar closes a group in bars: the partner that looking ahead finds, if the brackets before
it match in kind. Looking ahead does not compare their kinds. -/

open Grammar Reading

/-- Whether the bar at a place is read as the beginning of a group in bars that closes where some
tokens begin. Nothing is reported about the bar then. -/
def ClosesAt (levels : Nat) (stops : List TokenKind) (cursor : Cursor) (closing : List Token) :
    Prop :=
  ∃ body last, sequence (phrase levels) [.bar] cursor.next = .ok body last ∧
    last.tokens = closing ∧ last.current.kind = .bar ∧
    atom (phrase levels) stops cursor =
      .ok (.delimited ⟨cursor.current.value, ⟨cursor.current.range, .detached⟩⟩ body
        ⟨.between cursor.current.range.stop last.current.range.start, .detached⟩
        ⟨last.current.value, ⟨last.current.range, .detached⟩⟩
        ⟨.cover cursor.current.range last.current.range, .detached⟩) last.next

section

variable {levels : Nat} {stops : List TokenKind} {cursor last : Cursor} {node : Node}
  {between after : List Token} {mark : Token}

theorem atom_of_lone_bar (bar : cursor.current.kind = .bar)
    (alone : closesBar stops 0 cursor.rest = false) :
    atom (phrase levels) stops cursor =
      .ok (.text cursor.current.value ⟨cursor.current.range, .detached⟩) cursor.next := by
  unfold atom
  simp only [current_bind, bar, hasClosingBar_bind, branch_apply, alone]
  rfl

theorem atom_of_bars (bar : cursor.current.kind = .bar)
    (found : closesBar stops 0 cursor.rest = true) :
    atom (phrase levels) stops cursor = delimited (phrase levels) .bar cursor := by
  unfold atom
  simp only [current_bind, bar, hasClosingBar_bind, branch_apply, found, if_true]

theorem closesAt_of_sequence {body : List Node} {middle : Cursor}
    (bar : cursor.current.kind = .bar) (found : closesBar stops 0 cursor.rest = true)
    (body_read : sequence (phrase levels) [.bar] cursor.next = .ok body middle)
    (atBar : middle.current.kind = .bar)
    (read : atom (phrase levels) stops cursor = .ok node last) :
    ClosesAt levels stops cursor middle.tokens := by
  refine ⟨body, middle, body_read, rfl, atBar, ?_⟩
  rw [read]
  rw [atom_of_bars bar found] at read
  unfold delimited at read
  simp only [advance_bind] at read
  rw [bind_apply, body_read] at read
  simp only [isAt_bind, atBar, decide_true, if_true, branch_apply, advance_bind, pure_bind] at read
  obtain ⟨inside, after, inside_read, made⟩ := bind_ok read
  obtain ⟨-, rfl, same⟩ := range_ok inside_read
  rw [same] at made
  exact made.symm

/-- A group in bars that is read has its contents read up to a bar or to the end of the text,
and a group without a bar at its end is reported. -/
theorem exists_sequence_of_atom (closed : cursor.Closed) (bar : cursor.current.kind = .bar)
    (found : closesBar stops 0 cursor.rest = true)
    (read : atom (phrase levels) stops cursor = .ok node last) :
    ∃ body middle, sequence (phrase levels) [.bar] cursor.next = .ok body middle ∧
      middle.Reaches last ∧ middle.endsSequence [.bar] = true ∧
      (last.errors = [] → middle.current.kind = .bar) := by
  rw [atom_of_bars bar found] at read
  unfold delimited at read
  simp only [advance_bind] at read
  obtain ⟨body, middle, body_read, read⟩ := bind_ok read
  refine ⟨body, middle, body_read, Proceeds.completed read,
    sequence_reaches_end (phrase_passesAtoms levels) closed.next body_read, fun clean => ?_⟩
  simp only [isAt_bind, branch_apply] at read
  split at read
  · rename_i atBar
    exact of_decide_eq_true atBar
  · exact (report_not_clean read clean).elim

theorem atom_not_recover (bar : cursor.current.kind = .bar) :
    atom (phrase levels) stops cursor ≠ .error .recover last := by
  cases found : closesBar stops 0 cursor.rest with
  | false =>
      rw [atom_of_lone_bar bar found]
      nofun
  | true =>
      rw [atom_of_bars bar found]
      unfold delimited
      simp only [advance_bind]
      rw [bind_apply]
      cases read : sequence (phrase levels) [.bar] cursor.next with
      | error reason stop =>
          rintro ⟨⟩
          exact sequenceFrom_not_recover read
      | ok body middle =>
          simp only [isAt_bind, branch_apply, advance_bind, report_bind, current_bind, pure_bind,
            range_eq]
          split
          · split <;> nofun
          · split <;> nofun

variable (closed : cursor.Closed) (bar : cursor.current.kind = .bar)
  (split : cursor.rest = between ++ mark :: after) (partner : IsPartner stops 0 between mark)

include split in
theorem next_tokens_of_split : cursor.next.tokens = between ++ mark :: after := by
  unfold Cursor.next Cursor.tokens
  rw [split]
  cases between <;> rfl

include partner split

theorem found_of_partner : closesBar stops 0 cursor.rest = true :=
  closesBar_iff.mpr ⟨between, mark, after, split, partner⟩

include closed bar

/-- If the brackets before its partner match, a bar that is read begins a group that closes at its
partner or at an earlier bar. -/
theorem exists_closing_of_matching (matching : closesAll [] between = true)
    (read : atom (phrase levels) stops cursor = .ok node last) :
    ∃ closing, mark :: after <:+ closing ∧ ClosesAt levels stops cursor closing := by
  have found := found_of_partner split partner
  obtain ⟨body, middle, body_read, -, ends, -⟩ := exists_sequence_of_atom closed bar found read
  -- Up to the partner the brackets match, so the sequence does not go on behind it.
  have opened : cursor.next.Owes (mark :: after) [] :=
    ⟨between, next_tokens_of_split split, matching⟩
  have stays : Stays (mark :: after) (· ∈ [.bar]) [] (.ok body middle) := by
    rw [← body_read]
    exact sequence_stays (phrase_stays levels) partner.isBar opened
      (.inl (List.mem_singleton_self _))
  obtain ⟨later, ⟨ahead, tokens, -⟩, -⟩ := stays
  have inText : middle.current.kind ≠ .eof := by
    cases ahead with
    | nil =>
        obtain ⟨same, -⟩ := List.cons.inj tokens
        rw [same, partner.isBar]
        nofun
    | cons first ahead =>
        obtain ⟨rfl, -⟩ := List.cons.inj tokens
        have passed := (GoesForward.completed body_read).tokens
        rw [next_tokens_of_split split, tokens, List.suffix_append_inj_of_length_eq rfl] at passed
        exact partner.inText _ (passed.1.subset List.mem_cons_self)
  have atBar : middle.current.kind = .bar := by
    simpa [Cursor.endsSequence, inText] using ends
  exact ⟨middle.tokens, ⟨ahead, tokens.symm⟩, closesAt_of_sequence bar found body_read atBar read⟩

/-- If nothing is reported, a bar begins a group that closes at its partner or at a later bar, and
at its partner just if the brackets before it match. -/
theorem exists_closing_of_clean (read : atom (phrase levels) stops cursor = .ok node last)
    (clean : last.errors = []) :
    ∃ closing, closing <:+ mark :: after ∧ ClosesAt levels stops cursor closing ∧
      (closing = mark :: after ↔ closesAll [] between = true) := by
  have found := found_of_partner split partner
  obtain ⟨body, middle, body_read, reached, ends, atBar⟩ :=
    exists_sequence_of_atom closed bar found read
  have atBar := atBar clean
  have written := sequence_written (phrase_sound levels) closed.next body_read (reached.clean clean)
  obtain ⟨passed, tokens, few, matching⟩ := written.enclosed.closes
  rw [next_tokens_of_split split] at tokens
  -- The sequence ends at the partner or behind it.
  have behind : ∃ more, passed = between ++ more ∧ mark :: after = more ++ middle.tokens := by
    rcases List.append_eq_append_iff.mp tokens with ⟨more, rfl, rest⟩ | ⟨more, rfl, rest⟩
    · exact ⟨more, rfl, rest⟩
    · cases more with
      | nil => exact ⟨[], by simp, by simpa using rest.symm⟩
      | cons first more =>
          -- A bar before the partner lies in brackets that what is written would have closed.
          obtain ⟨rfl, -⟩ := List.cons.inj rest
          obtain ⟨level, outside⟩ := partner.inside passed middle.current (more ++ [mark]) (by simp)
          have last := (outside (by omega)).2.2 atBar
          simp at last
  obtain ⟨more, rfl, rest⟩ := behind
  refine ⟨middle.tokens, ⟨more, rest.symm⟩, closesAt_of_sequence bar found body_read atBar read,
    ?_⟩
  refine ⟨fun same => ?_, fun matches_between => ?_⟩
  · rw [same, List.self_eq_append_left] at rest
    subst rest
    have level := partner.level
    rw [List.append_nil] at matching
    have whole := matching (by omega) [] []
    rwa [List.append_nil] at whole
  · obtain ⟨closing, ⟨others, split_closing⟩, ⟨_, other, other_read, rfl, -⟩⟩ :=
      exists_closing_of_matching closed bar split partner matches_between read
    obtain ⟨-, rfl⟩ := EStateM.Result.ok.inj (body_read.symm.trans other_read)
    have lengths := congrArg List.length split_closing
    have same := congrArg List.length rest
    simp only [List.length_append] at lengths same
    have none : more = [] := List.eq_nil_of_length_eq_zero (by omega)
    rw [rest, none]
    rfl

end

/-- A bar that has no partner ahead is plain text. A bar that has one begins a group in bars. If
the brackets between the two match in kind, the group closes, at the partner or at an earlier bar
behind a fault. If no fault is reported, the group closes at the partner or at a later bar, and at
the partner if and only if the brackets between match in kind. -/
theorem bars_closed_by_partners (levels : Nat) (stops : List TokenKind) (cursor : Cursor)
    (closed : cursor.Closed) (bar : cursor.current.kind = .bar) :
    ((¬∃ between mark after, cursor.rest = between ++ mark :: after ∧
        IsPartner stops 0 between mark) →
      atom (phrase levels) stops cursor =
        .ok (.text cursor.current.value ⟨cursor.current.range, .detached⟩) cursor.next) ∧
    (∀ last, atom (phrase levels) stops cursor ≠ .error .recover last) ∧
    ∀ between mark after, cursor.rest = between ++ mark :: after →
      IsPartner stops 0 between mark → ∀ node last,
        atom (phrase levels) stops cursor = .ok node last →
          (closesAll [] between = true →
            ∃ closing, mark :: after <:+ closing ∧ ClosesAt levels stops cursor closing) ∧
          (last.errors = [] →
            ∃ closing, closing <:+ mark :: after ∧ ClosesAt levels stops cursor closing ∧
              (closing = mark :: after ↔ closesAll [] between = true)) := by
  refine ⟨fun alone => ?_, fun _ => atom_not_recover bar, ?_⟩
  · exact atom_of_lone_bar bar (Bool.eq_false_iff.mpr fun found => alone (closesBar_iff.mp found))
  · intro between mark after split partner node last read
    exact ⟨fun matching => exists_closing_of_matching closed bar split partner matching read,
      exists_closing_of_clean closed bar split partner read⟩

def Reading.isClean {α : Type} : EStateM.Result Interrupt Cursor α → Bool
  | .ok _ last => last.errors.isEmpty
  | .error _ _ => false

/-- A group in bars around a group in parentheses closes at the bar behind that. -/
theorem bars_closed_by_partners_of_group :
    ∃ tokens closing, (tokenize "|(a)|").toOption = some tokens ∧
      ClosesAt maxNesting [] (Cursor.ofTokens tokens) closing ∧
      closing.map Token.kind = [.bar, .eof] := by
  let between : List Token := [⟨.lparen, "(", ⟨1, 2, by decide⟩⟩, ⟨.text, "a", ⟨2, 3, by decide⟩⟩,
    ⟨.rparen, ")", ⟨3, 4, by decide⟩⟩]
  let mark : Token := ⟨.bar, "|", ⟨4, 5, by decide⟩⟩
  let last : Token := ⟨.eof, "", ⟨5, 5, by decide⟩⟩
  let tokens : TokenList := ⟨⟨.bar, "|", ⟨0, 1, by decide⟩⟩ :: (between ++ [mark]), last⟩
  have partner : IsPartner [] 0 between mark := by
    simp [between, mark, IsPartner.cons_iff, IsPartner.nil_iff, IsPartner.depthAfter,
      TokenKind.isOpener, TokenKind.isCloser, TokenKind.closer?]
  have evaluated :
      Reading.isClean (atom (phrase maxNesting) [] (Cursor.ofTokens tokens)) = true := by
    decide +kernel
  cases read : atom (phrase maxNesting) [] (Cursor.ofTokens tokens) with
  | error =>
      rw [read] at evaluated
      cases evaluated
  | ok node stop =>
      rw [read] at evaluated
      obtain ⟨-, -, closes⟩ := bars_closed_by_partners maxNesting [] (Cursor.ofTokens tokens)
        (Cursor.closed_ofTokens rfl) rfl
      obtain ⟨closing, -, closes, same⟩ :=
        (closes between mark [last] rfl partner node stop read).2 (List.isEmpty_iff.mp evaluated)
      refine ⟨tokens, closing, by decide +kernel, closes, ?_⟩
      rw [same.mpr rfl]
      rfl

/-- Looking ahead takes a bracket that closes for the partner of one of another kind, so that a bar
is taken for the beginning of a group that never closes. -/
theorem bar_not_closed_of_crossed_brackets :
    ∃ tokens failure, tokenize "|(]|)" = .ok tokens ∧
      (Cursor.ofTokens tokens).current.kind = .bar ∧
      closesBar [] 0 (Cursor.ofTokens tokens).rest = true ∧
      Formula.ofTokens tokens = .error failure ∧
      failure = .errors [⟨.unclosedDelimiter, ⟨0, 1, by decide⟩⟩] := by
  have evaluated : ((tokenize "|(]|)").toOption.any fun tokens =>
      (Cursor.ofTokens tokens).current.kind = .bar &&
        closesBar [] 0 (Cursor.ofTokens tokens).rest &&
          match Formula.ofTokens tokens with
          | .ok _ => false
          | .error failure => failure = .errors [⟨.unclosedDelimiter, ⟨0, 1, by decide⟩⟩]) =
      true := by
    decide +kernel
  cases tokenized : tokenize "|(]|)" with
  | error errors =>
      rw [tokenized] at evaluated
      cases evaluated
  | ok tokens =>
      rw [tokenized] at evaluated
      simp only [Except.toOption, Option.any, Bool.and_eq_true, decide_eq_true_eq] at evaluated
      obtain ⟨⟨bar, found⟩, reported⟩ := evaluated
      cases read : Formula.ofTokens tokens with
      | ok formula =>
          rw [read] at reported
          cases reported
      | error failure =>
          rw [read] at reported
          exact ⟨tokens, failure, rfl, bar, found, read, of_decide_eq_true reported⟩

end EquationMap
