import EquationMap.Proofs.Parsing.Reading
import EquationMap.Proofs.Parsing.Written
import EquationMap.Syntax.Formula

namespace EquationMap

namespace Grammar

/-! What a reading gives at every number of levels. With as many levels as it needs it gives the
same whatever their number, and with fewer it is abandoned for its nesting and for nothing else. -/

open Reading

variable {α β : Type} {reading : Nat → Reading α} {start middle last : Cursor} {value : α}
  {needed more : Nat}

/-- Whether reading is abandoned because it nests too deeply, with no other fault found. -/
def Abandoned (start : Cursor) (result : EStateM.Result Interrupt Cursor α) : Prop :=
  ∃ last range, result = .error .tooDeep last ∧
    last.errors = ⟨.parsedTooDeep, range⟩ :: start.errors

/-- How many levels a reading needs, and what it gives with that many. -/
structure Needs (reading : Nat → Reading α) (needed : Nat) (start : Cursor) (value : α)
    (last : Cursor) : Prop where
  read : ∀ levels, needed ≤ levels → reading levels start = .ok value last
  abandoned : ∀ levels, levels < needed → Abandoned start (reading levels start)
  errors : last.errors = start.errors

namespace Needs

theorem of_read (read : ∀ levels, reading levels start = .ok value last)
    (errors : last.errors = start.errors) : Needs reading 0 start value last where
  read levels _ := read levels
  abandoned levels few := absurd few (Nat.not_lt_zero levels)
  errors := errors

theorem of_levels (needs : Needs reading needed start value last) (same : more = needed) :
    Needs reading more start value last :=
  same ▸ needs

/-- What is read from a later place on, with the same faults, is read from an earlier one. -/
theorem later {other : Nat → Reading α} (needs : Needs other needed middle value last)
    (same : ∀ levels, reading levels start = other levels middle)
    (errors : middle.errors = start.errors) : Needs reading needed start value last where
  read levels enough := (same levels).trans (needs.read levels enough)
  abandoned levels few := by
    obtain ⟨stop, range, isAbandoned, found⟩ := needs.abandoned levels few
    exact ⟨stop, range, (same levels).trans isAbandoned, errors ▸ found⟩
  errors := needs.errors.trans errors

/-- A reading needs the levels of one in it if it comes to its end, or is abandoned, with
that one. -/
theorem through {other : Nat → Reading β} {found : β} {before after : Cursor}
    (needs : Needs other needed before found after)
    (read : ∀ levels, other levels before = .ok found after →
      reading levels start = .ok value last)
    (abandoned : ∀ levels stop, other levels before = .error .tooDeep stop →
      reading levels start = .error .tooDeep stop)
    (errors_before : before.errors = start.errors) (errors_after : last.errors = after.errors) :
    Needs reading needed start value last where
  read levels enough := read levels (needs.read levels enough)
  abandoned levels few := by
    obtain ⟨stop, range, isAbandoned, found⟩ := needs.abandoned levels few
    exact ⟨stop, range, abandoned levels stop isAbandoned, errors_before ▸ found⟩
  errors := errors_after.trans (needs.errors.trans errors_before)

theorem bind {next : Nat → α → Reading β} {result : β}
    (head : Needs reading needed start value middle)
    (tail : Needs (fun levels => next levels value) more middle result last) :
    Needs (fun levels => reading levels >>= next levels) (max needed more) start result last where
  read levels enough := by
    rw [bind_apply, head.read levels (Nat.le_trans (Nat.le_max_left _ _) enough)]
    exact tail.read levels (Nat.le_trans (Nat.le_max_right _ _) enough)
  abandoned levels few := by
    rw [bind_apply]
    by_cases short : levels < needed
    · obtain ⟨stop, range, isAbandoned, found⟩ := head.abandoned levels short
      exact ⟨stop, range, by rw [isAbandoned], found⟩
    · rw [head.read levels (Nat.le_of_not_lt short)]
      obtain ⟨stop, range, isAbandoned, found⟩ := tail.abandoned levels (by omega)
      exact ⟨stop, range, isAbandoned, head.errors ▸ found⟩
  errors := tail.errors.trans head.errors

theorem ending {next : Nat → α → Reading β} {result : β}
    (head : Needs reading needed start value middle)
    (tail : ∀ levels, next levels value middle = .ok result last)
    (errors : last.errors = middle.errors) :
    Needs (fun levels => reading levels >>= next levels) needed start result last :=
  Nat.max_zero needed ▸ head.bind (of_read tail errors)

theorem map {function : α → β} (needs : Needs reading needed start value last) :
    Needs (fun levels => function <$> reading levels) needed start (function value) last :=
  needs.ending (fun _ => rfl) rfl

theorem deeper {form : Phrase} {node : Node}
    (needs : Needs (fun levels => body (phrase levels) form) needed start node last) :
    Needs (fun levels => phrase levels form) (needed + 1) start node last where
  read levels enough := by
    cases levels with
    | zero => exact absurd enough (Nat.not_succ_le_zero needed)
    | succ levels => exact needs.read levels (Nat.le_of_succ_le_succ enough)
  abandoned levels few := by
    cases levels with
    | zero => exact ⟨_, _, rfl, rfl⟩
    | succ levels => exact needs.abandoned levels (Nat.lt_of_succ_lt_succ few)
  errors := needs.errors

end Needs

section

variable {stops : List TokenKind} {stop : Option ScriptSide} {next : Token} {rest : List Token}
  {errors : List SyntaxError} {base : Node} {found : Scripts}

def attached (base : Node) (found : Scripts) : Node :=
  if found.last.isNone then base
  else .attach base found.bottom found.top none ⟨attachedRange base none found, .detached⟩

theorem needs_attachment (noPrime : next.kind ≠ .prime)
    (needs_base : Needs (fun levels => phrase levels (.atom stops)) needed start base
      ⟨next, rest, errors⟩)
    (needs : Needs (fun levels => scripts (phrase levels) stops stop) more
      ⟨next, rest, errors⟩ found last) :
    Needs (fun levels => attachment (phrase levels) stops stop) (max needed more) start
      (attached base found) last := by
  unfold attachment
  refine .bind needs_base ?_
  have whole : Needs (fun levels =>
      scripts (phrase levels) stops stop >>= fun found => pure (attached base found)) more
      ⟨next, rest, errors⟩ (attached base found) last :=
    needs.ending (fun _ => rfl) rfl
  refine whole.later (fun levels => ?_) rfl
  simp only [isAt_bind, noPrime, decide_false, Bool.false_and]
  rw [if_neg Bool.false_ne_true, bind_apply, pure_apply]
  dsimp only
  rw [bind_apply, bind_apply]
  cases scripts (phrase levels) stops stop ⟨next, rest, errors⟩ with
  | error reason last => rfl
  | ok found last =>
      simp only [Option.isNone_none, true_and, branch_apply, pure_apply, attached]
      split <;> rfl

/-- Whether a token is no script of the atom before it: no mark, or one for an outer atom. -/
def LeavesScripts (stop : Option ScriptSide) (next : Token) : Prop :=
  ∀ side, ScriptSide.ofKind? next.kind = some side → some side = stop

theorem needs_no_scripts (leaves : LeavesScripts stop next) :
    Needs (fun levels => scripts (phrase levels) stops stop) 0 ⟨next, rest, errors⟩ {}
      ⟨next, rest, errors⟩ := by
  refine .of_read (fun levels => ?_) rfl
  unfold scripts
  rw [current_bind]
  dsimp only
  cases ofKind : ScriptSide.ofKind? next.kind with
  | none => rfl
  | some side =>
      dsimp only
      rw [if_pos (leaves side ofKind)]
      rfl

theorem needs_fraction (noSlash : last.current.kind ≠ .slash)
    (needs : Needs (fun levels => attachment (phrase levels) stops none) needed start base last) :
    Needs (fun levels => fraction (phrase levels) stops) needed start base last := by
  refine needs.ending (fun levels => ?_) rfl
  unfold fractionFrom
  rw [isAt_bind, decide_eq_false noSlash]
  rfl

end

section

variable {deeper : Phrase → Reading Node} {first stop : Token} {rest : List Token} {node : Node}

theorem sequence_of_fraction (inText : first.kind ≠ .eof) (isEnd : stop.kind = .eof)
    (read : fraction deeper [] ⟨first, rest, []⟩ = .ok node ⟨stop, [], []⟩)
    (nonempty : rest ≠ []) :
    sequence deeper [] ⟨first, rest, []⟩ = .ok [node] ⟨stop, [], []⟩ := by
  have goesOn : Cursor.endsSequence ⟨first, rest, []⟩ [] = false := by
    simp [Cursor.endsSequence, inText]
  have ends : Cursor.endsSequence ⟨stop, [], []⟩ [] = true := by
    simp [Cursor.endsSequence, isEnd]
  have attempted : attempt (fraction deeper []) ⟨first, rest, []⟩ =
      .ok (some node) ⟨stop, [], []⟩ := by
    unfold attempt
    rw [read]
  obtain ⟨token, others, rfl⟩ := List.exists_cons_of_ne_nil nonempty
  unfold sequence
  rw [remaining_bind, sequenceFrom, endsSequence_bind, goesOn, if_neg Bool.false_ne_true,
    remaining_bind, bind_apply, attempted]
  dsimp only [List.length_cons]
  rw [List.isEmpty_nil, Bool.not_true, endsSequence_bind, Bool.false_and,
    if_neg Bool.false_ne_true, sequenceFrom, endsSequence_bind, ends]
  rfl

theorem sequence_of_abandoned {last : Cursor} (inText : first.kind ≠ .eof)
    (read : fraction deeper [] ⟨first, rest, []⟩ = .error .tooDeep last) :
    sequence deeper [] ⟨first, rest, []⟩ = .error .tooDeep last := by
  have goesOn : Cursor.endsSequence ⟨first, rest, []⟩ [] = false := by
    simp [Cursor.endsSequence, inText]
  have attempted : attempt (fraction deeper []) ⟨first, rest, []⟩ = .error .tooDeep last := by
    unfold attempt
    rw [read]
  unfold sequence
  rw [remaining_bind, sequenceFrom, endsSequence_bind, goesOn, if_neg Bool.false_ne_true,
    remaining_bind, bind_apply, attempted]

end

end Grammar

/-- A text whose tokens are all read as one fraction is a formula of it alone if its levels are
enough, and is refused for its nesting and for nothing else otherwise. -/
theorem Formula.ofTokens_of_needs {tokens : TokenList} {first : Token} {rest : List Token}
    {node : Node} {needed : Nat} (split : tokens.tokens = first :: rest)
    (inText : first.kind ≠ .eof) (isEnd : tokens.last.kind = .eof)
    (needs : Grammar.Needs (fun levels => Grammar.fraction (Grammar.phrase levels) []) needed
      ⟨first, rest ++ [tokens.last], []⟩ node ⟨tokens.last, [], []⟩) :
    ∃ range, Formula.ofTokens tokens =
      if needed ≤ maxNesting then
        .ok ⟨[node], ⟨.between 0 tokens.last.range.stop, .detached⟩⟩
      else .error (.errors [⟨.parsedTooDeep, range⟩]) := by
  have start : Cursor.ofTokens tokens = ⟨first, rest ++ [tokens.last], []⟩ := by
    unfold Cursor.ofTokens
    rw [split]
  unfold Formula.ofTokens
  rw [start]
  by_cases enough : needed ≤ maxNesting
  · refine ⟨.empty 0, ?_⟩
    rw [if_pos enough, Grammar.sequence_of_fraction inText isEnd (needs.read _ enough)
      (List.append_ne_nil_of_right_ne_nil _ (List.cons_ne_nil _ _))]
    rfl
  · obtain ⟨last, range, abandoned, errors⟩ := needs.abandoned _ (Nat.lt_of_not_le enough)
    refine ⟨range, ?_⟩
    rw [if_neg enough, Grammar.sequence_of_abandoned inText abandoned]
    change Except.error (SyntaxFailure.errors last.errors.reverse) = _
    rw [errors]
    rfl

end EquationMap
