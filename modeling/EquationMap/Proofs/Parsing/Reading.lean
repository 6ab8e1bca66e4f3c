import EquationMap.Decimal.Numeral
import EquationMap.Syntax.Cursor

namespace EquationMap

/-! Reading only goes forward: it passes tokens and adds faults, and a phrase that breaks off
for its sequence to go on has reported a fault. So whatever was read before a place without
faults was read without faults as well. A number breaks it off only at the token that writes it, and
a range only among tokens that are not in the order of the text. -/

/-- Whether a token is a numeral that has no value. -/
def Token.Valueless (token : Token) (fault : NumberFault) : Prop :=
  (token.kind = .int ∧ Decimal.readInteger token.value = .error fault) ∨
  (token.kind = .float ∧ Decimal.readNumeral? token.value.toList = none ∧
    fault = .decimalNumeral token.value)

namespace Cursor

def tokens (cursor : Cursor) : List Token :=
  cursor.current :: cursor.rest

theorem peek_eq_next (cursor : Cursor) : cursor.peek = cursor.next.current := by
  unfold peek next
  cases cursor.rest <;> rfl

/-- Whether a later cursor is reached from an earlier one by passing tokens and adding
faults. -/
structure Reaches (earlier later : Cursor) : Prop where
  tokens : later.tokens <:+ earlier.tokens
  errors : earlier.errors <:+ later.errors

theorem Reaches.refl (cursor : Cursor) : cursor.Reaches cursor :=
  ⟨List.suffix_rfl, List.suffix_rfl⟩

theorem Reaches.trans {first second third : Cursor} (before : first.Reaches second)
    (after : second.Reaches third) : first.Reaches third :=
  ⟨after.tokens.trans before.tokens, before.errors.trans after.errors⟩

theorem reaches_next (cursor : Cursor) : cursor.Reaches cursor.next := by
  unfold next
  split
  · exact .refl cursor
  · rename_i token rest split
    refine ⟨?_, List.suffix_rfl⟩
    unfold tokens
    rw [split]
    exact List.suffix_cons _ _

theorem reaches_report (cursor : Cursor) (fault : SyntaxFault) (range : ByteRange) :
    cursor.Reaches (cursor.report fault range) :=
  ⟨List.suffix_rfl, List.suffix_cons _ _⟩

theorem Reaches.clean {earlier later : Cursor} (reaches : earlier.Reaches later)
    (clean : later.errors = []) : earlier.errors = [] :=
  List.suffix_nil.mp (clean ▸ reaches.errors)

/-- Whether the tokens from here on are in the order of the text, with nothing in the last one. -/
structure Ordered (cursor : Cursor) : Prop where
  ordered : cursor.tokens.Pairwise fun earlier later => earlier.range.stop ≤ later.range.start
  last : ∀ token ∈ cursor.tokens.getLast?, token.range.stop ≤ token.range.start

theorem Reaches.ordered {earlier later : Cursor} (reaches : earlier.Reaches later)
    (ordered : earlier.Ordered) : later.Ordered where
  ordered := ordered.ordered.sublist reaches.tokens.sublist
  last := by
    obtain ⟨before, split⟩ := reaches.tokens
    intro token isLast
    refine ordered.last token ?_
    rw [← split, List.getLast?_append, Option.mem_def.mp isLast]
    rfl

theorem Ordered.le_of_next {cursor : Cursor} (ordered : cursor.Ordered) {token : Token}
    (member : token ∈ cursor.next.tokens) : cursor.current.range.stop ≤ token.range.start := by
  unfold next at member
  split at member
  · rename_i isLast
    have only : cursor.tokens = [cursor.current] := by rw [tokens, isLast]
    rw [only, List.mem_singleton] at member
    rw [member]
    exact ordered.last _ (by rw [only]; rfl)
  · rename_i second rest split
    have pairs := ordered.ordered
    rw [tokens, split] at pairs
    exact List.rel_of_pairwise_cons pairs member

theorem Ordered.current_le {cursor : Cursor} (ordered : cursor.Ordered) {token : Token}
    (member : token ∈ cursor.tokens) : cursor.current.range.start ≤ token.range.start := by
  rcases List.mem_cons.mp member with rfl | later
  · exact Nat.le_refl _
  · exact Nat.le_trans cursor.current.range.ordered
      (List.rel_of_pairwise_cons ordered.ordered later)

/-- Whether reading from a place on can break off at the fault of a number: for a numeral without a
value, or for the range between two tokens in the wrong order. -/
def CanBreakAt (cursor : Cursor) (fault : NumberFault) : Prop :=
  (∃ token ∈ cursor.tokens, token.Valueless fault) ∨
    ¬cursor.Ordered ∧ ∃ start stop, fault = .invalidRange start stop ∧ stop < start

theorem Reaches.canBreakAt {earlier later : Cursor} (reaches : earlier.Reaches later)
    {fault : NumberFault} (breaks : later.CanBreakAt fault) : earlier.CanBreakAt fault := by
  rcases breaks with ⟨token, member, valueless⟩ | ⟨disordered, isRange⟩
  · exact .inl ⟨token, reaches.tokens.subset member, valueless⟩
  · exact .inr ⟨fun ordered => disordered (reaches.ordered ordered), isRange⟩

/-- Whether the tokens from here on end with the mark of the end of the text. -/
def Closed (cursor : Cursor) : Prop :=
  ∃ last, last.kind = .eof ∧ [last] <:+ cursor.tokens

theorem Reaches.closed {earlier later : Cursor} (reaches : earlier.Reaches later)
    (closed : earlier.Closed) : later.Closed := by
  obtain ⟨last, isEnd, atEnd⟩ := closed
  refine ⟨last, isEnd, List.suffix_of_suffix_length_le atEnd reaches.tokens ?_⟩
  simp [Cursor.tokens]

theorem Closed.next {cursor : Cursor} (closed : cursor.Closed) : cursor.next.Closed :=
  cursor.reaches_next.closed closed

theorem Closed.tokens_next {cursor : Cursor} (closed : cursor.Closed)
    (inText : cursor.current.kind ≠ .eof) :
    cursor.tokens = cursor.current :: cursor.next.tokens := by
  obtain ⟨last, isEnd, atEnd⟩ := closed
  unfold tokens at atEnd ⊢
  unfold Cursor.next
  cases split : cursor.rest with
  | nil =>
      rw [split] at atEnd
      have same : last = cursor.current := by simpa using atEnd.eq_of_length rfl
      rw [← same] at inText
      contradiction
  | cons token rest => rfl

theorem Closed.tokens_of_kind {cursor : Cursor} (closed : cursor.Closed) {kind : TokenKind}
    (atKind : cursor.current.kind = kind) (inText : kind ≠ .eof) :
    cursor.tokens = cursor.current :: cursor.next.tokens :=
  closed.tokens_next (atKind ▸ inText)

theorem Closed.peek_eq {cursor : Cursor} (closed : cursor.Closed)
    (inText : cursor.current.kind ≠ .eof) : cursor.peek = cursor.next.current := by
  have tokens := closed.tokens_next inText
  unfold Cursor.tokens at tokens
  unfold peek
  rw [(List.cons.inj tokens).2]
  rfl

end Cursor

namespace Reading

/-- Reading that only goes forward, and that reports a fault before it breaks off: the last one is
that of nesting if nothing more is read. -/
class GoesForward (reading : Reading α) : Prop where
  completed : ∀ {start value last}, reading start = .ok value last → start.Reaches last
  interrupted : ∀ {start reason last}, reading start = .error reason last →
    start.Reaches last ∧ (reason = .recover → last.errors ≠ [])
  faulted : ∀ {start fault last}, reading start = .error (.number fault) last →
    start.CanBreakAt fault
  abandoned : ∀ {start last}, reading start = .error .tooDeep last →
    ∃ range, last.errors.head? = some ⟨.parsedTooDeep, range⟩

theorem range_eq (start stop : Nat) : range start stop =
    if start ≤ stop then pure (.between start stop)
    else interrupt (.number (.invalidRange start stop)) := by
  have same : ByteRange.ofOffsets start stop =
      if ordered : start ≤ stop then .ok ⟨start, stop, ordered⟩
      else .error (.invalidRange start stop) := rfl
  funext cursor
  rw [range, same]
  by_cases ordered : start ≤ stop
  · rw [dif_pos ordered, if_pos ordered]
    simp [ByteRange.between, Nat.max_eq_right ordered, pure, EStateM.pure]
  · rw [dif_neg ordered, if_neg ordered]
    rfl

section

variable {first : Reading α} {next : α → Reading β}

theorem bind_apply (first : Reading α) (next : α → Reading β) (cursor : Cursor) :
    (first >>= next) cursor =
      match first cursor with
      | .ok value middle => next value middle
      | .error reason last => .error reason last := by
  change EStateM.bind first next cursor = _
  unfold EStateM.bind
  cases first cursor <;> rfl

/-- Whether a reading goes forward from a place that was reached from another one, and breaks off
only at a number that can break it off there. -/
structure GoesOn (origin : Cursor) (reading : Reading α) (start : Cursor) : Prop where
  completed : ∀ {value last}, reading start = .ok value last → start.Reaches last
  interrupted : ∀ {reason last}, reading start = .error reason last →
    start.Reaches last ∧ (reason = .recover → last.errors ≠ [])
  faulted : ∀ {fault last}, reading start = .error (.number fault) last → origin.CanBreakAt fault
  abandoned : ∀ {last}, reading start = .error .tooDeep last →
    ∃ range, last.errors.head? = some ⟨.parsedTooDeep, range⟩

theorem GoesForward.of_goesOn {reading : Reading α}
    (each : ∀ start, GoesOn start reading start) : GoesForward reading where
  completed read := (each _).completed read
  interrupted read := (each _).interrupted read
  faulted read := (each _).faulted read
  abandoned read := (each _).abandoned read

theorem GoesForward.goesOn {origin start : Cursor} {reading : Reading α}
    (forward : GoesForward reading) (reached : origin.Reaches start) :
    GoesOn origin reading start where
  completed := forward.completed
  interrupted := forward.interrupted
  faulted read := reached.canBreakAt (forward.faulted read)
  abandoned := forward.abandoned

theorem GoesOn.bind {origin start : Cursor} (head : GoesOn origin first start)
    (tail : ∀ value middle, first start = .ok value middle → start.Reaches middle →
      GoesOn origin (next value) middle) : GoesOn origin (first >>= next) start := by
  have after {value middle} (reached : first start = .ok value middle) :=
    tail value middle reached (head.completed reached)
  constructor
  case completed =>
    intro value last read
    rw [bind_apply] at read
    split at read
    · rename_i reached
      exact (head.completed reached).trans ((after reached).completed read)
    · cases read
  case interrupted =>
    intro reason last read
    rw [bind_apply] at read
    split at read
    · rename_i reached
      obtain ⟨later, reported⟩ := (after reached).interrupted read
      exact ⟨(head.completed reached).trans later, reported⟩
    · rename_i broken
      cases read
      exact head.interrupted broken
  case faulted =>
    intro fault last read
    rw [bind_apply] at read
    split at read
    · rename_i reached
      exact (after reached).faulted read
    · rename_i broken
      cases read
      exact head.faulted broken
  case abandoned =>
    intro last read
    rw [bind_apply] at read
    split at read
    · rename_i reached
      exact (after reached).abandoned read
    · rename_i broken
      cases read
      exact head.abandoned broken

theorem GoesForward.bind (head : GoesForward first)
    (tail : ∀ value, GoesForward (next value)) : GoesForward (first >>= next) :=
  .of_goesOn fun start => (head.goesOn (.refl start)).bind fun value _ _ reached =>
    (tail value).goesOn reached

theorem GoesForward.ite {condition : Prop} [Decidable condition] {left right : Reading α}
    (holds : GoesForward left) (fails : GoesForward right) :
    GoesForward (if condition then left else right) := by
  split
  · exact holds
  · exact fails

instance [head : GoesForward first] [tail : ∀ value, GoesForward (next value)] :
    GoesForward (first >>= next) :=
  .bind head tail

/-- The range between two offsets is made unless the tokens are in the wrong order. -/
theorem goesOn_range {origin start : Cursor} {first last : Nat}
    (ordered : origin.Ordered → first ≤ last) : GoesOn origin (range first last) start := by
  rw [range_eq]
  by_cases inOrder : first ≤ last
  · rw [if_pos inOrder]
    constructor
    case completed =>
      rintro value last ⟨⟩
      exact .refl start
    all_goals
      intros
      contradiction
  · rw [if_neg inOrder]
    constructor
    case completed => rintro value last ⟨⟩
    case interrupted =>
      rintro reason last ⟨⟩
      exact ⟨.refl start, nofun⟩
    case faulted =>
      rintro fault last ⟨⟩
      refine .inr ⟨fun tokens => inOrder (ordered tokens), _, _, rfl, ?_⟩
      exact Int.ofNat_lt.mpr (Nat.not_le.mp inOrder)
    case abandoned => rintro last ⟨⟩

/-- A reading that never breaks off goes forward if it ends at a place that is reached. -/
theorem GoesForward.of_ok {reading : Reading α} {value : Cursor → α} {stop : Cursor → Cursor}
    (reads : ∀ cursor, reading cursor = .ok (value cursor) (stop cursor))
    (reaches : ∀ cursor : Cursor, cursor.Reaches (stop cursor)) : GoesForward reading where
  completed := by
    intro start _ last read
    cases (reads start).symm.trans read
    exact reaches start
  interrupted := by
    intro start reason last read
    cases (reads start).symm.trans read
  faulted := by
    intro start fault last read
    cases (reads start).symm.trans read
  abandoned := by
    intro start last read
    cases (reads start).symm.trans read

/-- A reading that breaks off right after a report, but not at a number, goes forward. What it
reports is nesting if nothing more is read. -/
theorem GoesForward.of_report {reading : Reading α} {fault : SyntaxFault} {reason : Interrupt}
    {mark : Cursor → ByteRange}
    (breaks : ∀ cursor, reading cursor = .error reason (cursor.report fault (mark cursor)))
    (notNumber : ∀ fault, reason ≠ .number fault)
    (ofNesting : reason = .tooDeep → fault = .parsedTooDeep) : GoesForward reading where
  completed := by
    intro start _ last read
    cases (breaks start).symm.trans read
  interrupted := by
    intro start _ last read
    cases (breaks start).symm.trans read
    exact ⟨start.reaches_report _ _, fun _ => List.cons_ne_nil _ _⟩
  faulted := by
    intro start other last read
    obtain ⟨same, -⟩ := EStateM.Result.error.inj ((breaks start).symm.trans read)
    exact absurd same (notNumber other)
  abandoned := by
    intro start last read
    obtain ⟨rfl, rfl⟩ := EStateM.Result.error.inj ((breaks start).symm.trans read)
    rw [ofNesting rfl]
    exact ⟨mark start, rfl⟩

instance (value : α) : GoesForward (pure value : Reading α) :=
  .of_ok (fun _ => rfl) .refl

instance (function : α → β) [GoesForward first] : GoesForward (function <$> first) :=
  inferInstanceAs (GoesForward (first >>= fun value => pure (function value)))

instance (condition : Prop) [Decidable condition] (left right : Reading α)
    [holds : GoesForward left] [fails : GoesForward right] :
    GoesForward (if condition then left else right) :=
  .ite holds fails

end

/-- Reading that can only end at a place that it reaches. -/
class Proceeds (reading : Reading α) : Prop where
  completed : ∀ {start value last}, reading start = .ok value last → start.Reaches last

instance (reading : Reading α) [GoesForward reading] : Proceeds reading where
  completed := GoesForward.completed

theorem Proceeds.bind {first : Reading α} {next : α → Reading β} (head : Proceeds first)
    (tail : ∀ value, Proceeds (next value)) : Proceeds (first >>= next) where
  completed := by
    intro start value last read
    rw [bind_apply] at read
    split at read
    · rename_i reached
      exact (head.completed reached).trans ((tail _).completed read)
    · cases read

theorem Proceeds.ite {condition : Prop} [Decidable condition] {left right : Reading α}
    (holds : Proceeds left) (fails : Proceeds right) :
    Proceeds (if condition then left else right) := by
  split
  · exact holds
  · exact fails

instance (first : Reading α) (next : α → Reading β) [head : Proceeds first]
    [tail : ∀ value, Proceeds (next value)] : Proceeds (first >>= next) :=
  .bind head tail

instance (condition : Prop) [Decidable condition] (left right : Reading α)
    [holds : Proceeds left] [fails : Proceeds right] :
    Proceeds (if condition then left else right) :=
  .ite holds fails

theorem range_ok {start stop : Nat} {cursor last : Cursor} {made : ByteRange}
    (read : range start stop cursor = .ok made last) :
    start ≤ stop ∧ made = .between start stop ∧ last = cursor := by
  rw [range_eq] at read
  split at read
  · rename_i ordered
    cases read
    exact ⟨ordered, rfl, rfl⟩
  · cases read

instance (start stop : Nat) : Proceeds (range start stop) where
  completed := by
    intro cursor made last read
    obtain ⟨-, -, rfl⟩ := range_ok read
    exact .refl _

theorem GoesForward.looking (look : Cursor → α) :
    GoesForward (fun cursor => .ok (look cursor) cursor : Reading α) :=
  .of_ok (fun _ => rfl) .refl

instance : GoesForward current := .looking _

instance : GoesForward peek := .looking _

instance : GoesForward remaining := .looking _

instance (kind : TokenKind) : GoesForward (isAt kind) := .looking _

instance (stops : List TokenKind) : GoesForward (endsSequence stops) := .looking _

instance : GoesForward advance :=
  .of_ok (fun _ => rfl) Cursor.reaches_next

instance (fault : SyntaxFault) (range : ByteRange) : GoesForward (report fault range) :=
  .of_ok (fun _ => rfl) fun cursor => cursor.reaches_report fault range

theorem GoesForward.abandoning (mark : Cursor → ByteRange) :
    GoesForward (fun cursor =>
      .error .tooDeep (cursor.report .parsedTooDeep (mark cursor)) : Reading α) :=
  .of_report (fun _ => rfl) (fun _ => nofun) fun _ => rfl

instance (fault : SyntaxFault) (range : ByteRange) :
    GoesForward (report fault range >>= fun _ => interrupt .recover : Reading α) :=
  .of_report (fun _ => rfl) (fun _ => nofun) nofun

/-- A reading goes forward if, whatever the token is, it goes forward or breaks off right after
the token for its number. -/
theorem GoesForward.of_current {next : Token → Reading α}
    (each : ∀ token, GoesForward (next token) ∨ ∃ fault, token.Valueless fault ∧
      next token = advance >>= fun _ => interrupt (.number fault)) :
    GoesForward (current >>= next) where
  completed := by
    intro start value last read
    change next start.current start = _ at read
    rcases each start.current with forward | ⟨fault, -, breaks⟩
    · exact forward.completed read
    · rw [breaks] at read
      cases read
  interrupted := by
    intro start reason last read
    change next start.current start = _ at read
    rcases each start.current with forward | ⟨fault, -, breaks⟩
    · exact forward.interrupted read
    · rw [breaks] at read
      cases read
      exact ⟨start.reaches_next, fun recovers => by cases recovers⟩
  faulted := by
    intro start fault last read
    change next start.current start = _ at read
    rcases each start.current with forward | ⟨other, valueless, breaks⟩
    · exact forward.faulted read
    · rw [breaks] at read
      cases read
      exact .inl ⟨start.current, List.mem_cons_self, valueless⟩
  abandoned := by
    intro start last read
    change next start.current start = _ at read
    rcases each start.current with forward | ⟨fault, -, breaks⟩
    · exact forward.abandoned read
    · rw [breaks] at read
      cases read

instance (kind : TokenKind) : GoesForward (expect kind) := by
  unfold expect
  infer_instance

instance (phrase : Reading α) [GoesForward phrase] : GoesForward (attempt phrase) where
  completed := by
    intro start value last read
    unfold attempt at read
    split at read
    · rename_i inner
      cases read
      exact GoesForward.completed inner
    · rename_i inner
      cases read
      exact (GoesForward.interrupted inner).1
    · cases read
  interrupted := by
    intro start reason last read
    unfold attempt at read
    split at read
    · cases read
    · cases read
    · rename_i inner
      cases read
      exact GoesForward.interrupted inner
  faulted := by
    intro start fault last read
    unfold attempt at read
    split at read
    · cases read
    · cases read
    · rename_i inner
      cases read
      exact GoesForward.faulted inner
  abandoned := by
    intro start last read
    unfold attempt at read
    split at read
    · cases read
    · cases read
    · rename_i inner
      cases read
      exact GoesForward.abandoned inner

/-! Readings that begin with a look at a token or with passing it. -/

section

variable {next : α → Reading β} (cursor : Cursor)

@[simp]
theorem current_bind (next : Token → Reading β) :
    (current >>= next) cursor = next cursor.current cursor :=
  rfl

@[simp]
theorem peek_bind (next : Token → Reading β) :
    (peek >>= next) cursor = next cursor.peek cursor :=
  rfl

@[simp]
theorem remaining_bind (next : Nat → Reading β) :
    (remaining >>= next) cursor = next cursor.rest.length cursor :=
  rfl

@[simp]
theorem isAt_bind (kind : TokenKind) (next : Bool → Reading β) :
    (isAt kind >>= next) cursor = next (cursor.current.kind = kind) cursor :=
  rfl

@[simp]
theorem endsSequence_bind (stops : List TokenKind) (next : Bool → Reading β) :
    (endsSequence stops >>= next) cursor = next (cursor.endsSequence stops) cursor :=
  rfl

@[simp]
theorem advance_bind (next : Token → Reading β) :
    (advance >>= next) cursor = next cursor.current cursor.next :=
  rfl

@[simp]
theorem report_bind (fault : SyntaxFault) (range : ByteRange) (next : Unit → Reading β) :
    (report fault range >>= next) cursor = next () (cursor.report fault range) :=
  rfl

@[simp]
theorem pure_apply (value : α) : (pure value : Reading α) cursor = .ok value cursor :=
  rfl

@[simp]
theorem branch_apply (condition : Prop) [Decidable condition] (left right : Reading α) :
    (if condition then left else right) cursor =
      if condition then left cursor else right cursor := by
  split <;> rfl

end

/-! Readings that end without a fault. -/

section

variable {first : Reading α} {next : α → Reading β} {cursor last : Cursor}

theorem closed_after [GoesForward first] {value : α} (closed : cursor.Closed)
    (read : first cursor = .ok value last) : last.Closed :=
  (GoesForward.completed read).closed closed

theorem bind_clean_of {value : β} (read : (first >>= next) cursor = .ok value last)
    (clean : last.errors = []) (tail : ∀ value, Proceeds (next value)) :
    ∃ found middle, first cursor = .ok found middle ∧ middle.errors = [] ∧
      next found middle = .ok value last := by
  rw [bind_apply] at read
  split at read
  · rename_i found middle head
    exact ⟨found, middle, head, ((tail found).completed read).clean clean, read⟩
  · cases read

theorem bind_clean [tail : ∀ value, Proceeds (next value)] {value : β}
    (read : (first >>= next) cursor = .ok value last) (clean : last.errors = []) :
    ∃ found middle, first cursor = .ok found middle ∧ middle.errors = [] ∧
      next found middle = .ok value last :=
  bind_clean_of read clean tail

theorem map_clean {function : α → β} {value : β}
    (read : (function <$> first) cursor = .ok value last) :
    ∃ found, first cursor = .ok found last ∧ value = function found := by
  change (first >>= fun found => pure (function found)) cursor = _ at read
  rw [bind_apply] at read
  split at read
  · rename_i found middle head
    cases read
    exact ⟨found, head, rfl⟩
  · cases read

theorem report_not_clean {next : Unit → Reading β} [tail : ∀ value, Proceeds (next value)]
    {fault : SyntaxFault} {range : ByteRange} {value : β}
    (read : (report fault range >>= next) cursor = .ok value last) (clean : last.errors = []) :
    False := by
  have before := ((tail ()).completed read).clean clean
  exact List.cons_ne_nil _ _ before

theorem expect_clean {kind : TokenKind} {token : Token}
    (read : expect kind cursor = .ok token last) (clean : last.errors = []) :
    cursor.current.kind = kind ∧ token = cursor.current ∧ last = cursor.next := by
  unfold expect at read
  simp only [current_bind, branch_apply] at read
  split at read
  · rename_i atKind
    cases read
    exact ⟨atKind, rfl, rfl⟩
  · exact (report_not_clean read clean).elim

theorem attempt_clean [GoesForward first] {found : Option α}
    (read : attempt first cursor = .ok found last) (clean : last.errors = []) :
    ∃ value, found = some value ∧ first cursor = .ok value last := by
  unfold attempt at read
  split at read
  · rename_i value _ inner
    cases read
    exact ⟨value, rfl, inner⟩
  · rename_i inner
    cases read
    exact absurd clean ((GoesForward.interrupted inner).2 rfl)
  · cases read

end

end Reading

end EquationMap
