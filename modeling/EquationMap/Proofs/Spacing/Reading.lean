import EquationMap.Proofs.Parsing.Reading
import Mathlib.Data.List.Forall2

namespace EquationMap

/-! Reading two texts side by side. Where their tokens have the same kinds and values, and
brackets directly follow the tokens before them in both texts or in neither, readings go on in
the same way. -/

/-- Whether it matters that a token of the kind directly follows what is before it. -/
def TokenKind.Attaches (kind : TokenKind) : Prop :=
  kind = .lparen ∨ kind = .lbracket

namespace Token

/-- Whether a token of each text, if its kind attaches, begins at the given offset of its text in
both texts or in neither. -/
def JoinsAlike (stop stop' : Nat) (token token' : Token) : Prop :=
  token.kind.Attaches → (stop = token.range.start ↔ stop' = token'.range.start)

def bare (token : Token) : TokenKind × String :=
  (token.kind, token.value)

/-- Whether two tokens differ in their ranges alone. -/
structure Alike (token token' : Token) : Prop where
  kind : token.kind = token'.kind
  value : token.value = token'.value
  solid : token.kind.Attaches → token.range.start < token.range.stop
  solid' : token.kind.Attaches → token'.range.start < token'.range.stop

/-- Whether two lists of tokens in order are alike, token by token. -/
inductive ListsAlike : List Token → List Token → Prop
  | last {token token' : Token} (alike : token.Alike token') : ListsAlike [token] [token']
  | cons {token token' next next' : Token} {rest rest' : List Token}
      (alike : token.Alike token') (ordered : token.range.start ≤ next.range.start)
      (ordered' : token'.range.start ≤ next'.range.start)
      (joined : JoinsAlike token.range.stop token'.range.stop next next')
      (later : ListsAlike (next :: rest) (next' :: rest')) :
      ListsAlike (token :: next :: rest) (token' :: next' :: rest')

theorem ListsAlike.forall₂ {tokens tokens' : List Token} (alike : ListsAlike tokens tokens') :
    List.Forall₂ Alike tokens tokens' := by
  induction alike with
  | last alike => exact .cons alike .nil
  | cons alike _ _ _ _ induction => exact .cons alike induction

/-- A token does not begin where it ends, so no token is attached to itself. -/
theorem Alike.joinsAlike {token token' : Token} (alike : token.Alike token') :
    JoinsAlike token.range.stop token'.range.stop token token' := fun attaches =>
  iff_of_false (Nat.ne_of_gt (alike.solid attaches)) (Nat.ne_of_gt (alike.solid' attaches))

end Token

/-- Whether reading goes on alike at two places, of which no later token starts before an offset
in each text. -/
structure Cursor.Alike (low low' : Nat) (cursor cursor' : Cursor) : Prop where
  tokens : Token.ListsAlike cursor.tokens cursor'.tokens
  inOrder : cursor.Ordered
  inOrder' : cursor'.Ordered
  low : low ≤ cursor.current.range.start
  low' : low' ≤ cursor'.current.range.start
  faults : cursor.errors.map SyntaxError.fault = cursor'.errors.map SyntaxError.fault

namespace Cursor

namespace Alike

variable {low low' : Nat} {cursor cursor' : Cursor} (alike : cursor.Alike low low' cursor')

include alike

theorem current : cursor.current.Alike cursor'.current := by
  cases alike.tokens.forall₂ with
  | cons alike _ => exact alike

theorem next_current :
    cursor.current.range.start ≤ cursor.next.current.range.start ∧
      cursor'.current.range.start ≤ cursor'.next.current.range.start ∧
      Token.JoinsAlike cursor.current.range.stop cursor'.current.range.stop
        cursor.next.current cursor'.next.current := by
  obtain ⟨tokens, -⟩ := alike
  obtain ⟨token, rest, errors⟩ := cursor
  obtain ⟨token', rest', errors'⟩ := cursor'
  unfold Cursor.tokens at tokens
  cases tokens with
  | last alike => exact ⟨Nat.le_refl _, Nat.le_refl _, alike.joinsAlike⟩
  | cons alike ordered ordered' joined later => exact ⟨ordered, ordered', joined⟩

theorem next : cursor.next.Alike low low' cursor'.next := by
  obtain ⟨ordered, ordered', -⟩ := alike.next_current
  obtain ⟨tokens, inOrder, inOrder', above, above', faults⟩ := alike
  refine ⟨?_, cursor.reaches_next.ordered inOrder, cursor'.reaches_next.ordered inOrder',
    Nat.le_trans above ordered, Nat.le_trans above' ordered', ?_⟩
  · obtain ⟨token, rest, errors⟩ := cursor
    obtain ⟨token', rest', errors'⟩ := cursor'
    unfold Cursor.tokens at tokens
    cases tokens with
    | last alike => exact .last alike
    | cons _ _ _ _ later => exact later
  · unfold Cursor.next
    split <;> split <;> exact faults

theorem report (fault : SyntaxFault) (range range' : ByteRange) :
    (cursor.report fault range).Alike low low' (cursor'.report fault range') where
  tokens := alike.tokens
  inOrder := (cursor.reaches_report fault range).ordered alike.inOrder
  inOrder' := (cursor'.reaches_report fault range').ordered alike.inOrder'
  low := alike.low
  low' := alike.low'
  faults := congrArg (fault :: ·) alike.faults

theorem length_rest : cursor.rest.length = cursor'.rest.length :=
  Nat.succ.inj alike.tokens.forall₂.length_eq

theorem endsSequence (stops : List TokenKind) :
    cursor.endsSequence stops = cursor'.endsSequence stops := by
  unfold Cursor.endsSequence
  rw [alike.current.kind]

theorem raised :
    cursor.Alike cursor.current.range.start cursor'.current.range.start cursor' :=
  { alike with low := Nat.le_refl _, low' := Nat.le_refl _ }

theorem lower {less less' : Nat} (le : less ≤ low) (le' : less' ≤ low') :
    cursor.Alike less less' cursor' :=
  { alike with low := Nat.le_trans le alike.low, low' := Nat.le_trans le' alike.low' }

end Alike

/-- Whether ranges of two texts begin between an offset and the place reached, and end so that an
attaching token there directly follows both of them or neither. -/
structure Joins (low low' : Nat) (range range' : ByteRange) (cursor cursor' : Cursor) : Prop where
  low : low ≤ range.start
  low' : low' ≤ range'.start
  start : range.start ≤ cursor.current.range.start
  start' : range'.start ≤ cursor'.current.range.start
  joined : Token.JoinsAlike range.stop range'.stop cursor.current cursor'.current

variable {low low' : Nat} {cursor cursor' : Cursor}

theorem Alike.joins_next (alike : cursor.Alike low low' cursor') :
    Joins low low' cursor.current.range cursor'.current.range cursor.next cursor'.next := by
  obtain ⟨ordered, ordered', joined⟩ := alike.next_current
  exact ⟨alike.low, alike.low', ordered, ordered', joined⟩

theorem Alike.joins_current (alike : cursor.Alike low low' cursor') :
    Joins low low' cursor.current.range cursor'.current.range cursor cursor' :=
  ⟨alike.low, alike.low', Nat.le_refl _, Nat.le_refl _, alike.current.joinsAlike⟩

theorem Joins.cover {first first' last last' : ByteRange}
    (joins : Joins first.start first'.start last last' cursor cursor') (le : low ≤ first.start)
    (le' : low' ≤ first'.start) :
    Joins low low' (.cover first last) (.cover first' last') cursor cursor' := by
  have stop : (ByteRange.cover first last).stop = last.stop :=
    Nat.max_eq_right (Nat.le_trans joins.low last.ordered)
  have stop' : (ByteRange.cover first' last').stop = last'.stop :=
    Nat.max_eq_right (Nat.le_trans joins.low' last'.ordered)
  refine ⟨le, le', Nat.le_trans joins.low joins.start, Nat.le_trans joins.low' joins.start', ?_⟩
  rw [stop, stop']
  exact joins.joined

theorem Joins.lower {less less' : Nat} {range range' : ByteRange}
    (joins : Joins low low' range range' cursor cursor') (le : less ≤ low) (le' : less' ≤ low') :
    Joins less less' range range' cursor cursor' :=
  { joins with low := Nat.le_trans le joins.low, low' := Nat.le_trans le' joins.low' }

theorem Joins.report {range range' : ByteRange}
    (joins : Joins low low' range range' cursor cursor') (fault : SyntaxFault)
    (mark mark' : ByteRange) :
    Joins low low' range range' (cursor.report fault mark) (cursor'.report fault mark') :=
  ⟨joins.low, joins.low', joins.start, joins.start', joins.joined⟩

end Cursor

namespace Reading

/-- Whether two readings end alike: both complete, with results that are related at the places
reached, or both are interrupted for one reason. -/
inductive Agree (low low' : Nat) (Both : α → α → Cursor → Cursor → Prop) :
    EStateM.Result Interrupt Cursor α → EStateM.Result Interrupt Cursor α → Prop
  | completed {value value' : α} {last last' : Cursor} (alike : last.Alike low low' last')
      (both : Both value value' last last') :
      Agree low low' Both (.ok value last) (.ok value' last')
  | interrupted {reason : Interrupt} {last last' : Cursor} (alike : last.Alike low low' last') :
      Agree low low' Both (.error reason last) (.error reason last')

namespace Agree

variable {low low' : Nat} {cursor cursor' : Cursor} {first first' : Reading α}
  {next next' : α → Reading β} {Mid : α → α → Cursor → Cursor → Prop}
  {Both : β → β → Cursor → Cursor → Prop}

theorem bind_read (head : Agree low low' Mid (first cursor) (first' cursor'))
    (tail : ∀ value value' last last', first cursor = .ok value last →
      first' cursor' = .ok value' last' → last.Alike low low' last' →
        Mid value value' last last' →
          Agree low low' Both (next value last) (next' value' last')) :
    Agree low low' Both ((first >>= next) cursor) ((first' >>= next') cursor') := by
  rw [bind_apply, bind_apply]
  generalize first cursor = result at *
  generalize first' cursor' = result' at *
  cases head with
  | completed alike both => exact tail _ _ _ _ rfl rfl alike both
  | interrupted alike => exact .interrupted alike

theorem bind (head : Agree low low' Mid (first cursor) (first' cursor'))
    (tail : ∀ value value' last last', last.Alike low low' last' →
      Mid value value' last last' →
        Agree low low' Both (next value last) (next' value' last')) :
    Agree low low' Both ((first >>= next) cursor) ((first' >>= next') cursor') :=
  head.bind_read fun value value' last last' _ _ => tail value value' last last'

theorem ranging {start start' stop stop' : Nat} {next next' : ByteRange → Reading β}
    (ordered : start ≤ stop) (ordered' : start' ≤ stop')
    (tail : ∀ range range', Agree low low' Both (next range cursor) (next' range' cursor')) :
    Agree low low' Both ((range start stop >>= next) cursor)
      ((range start' stop' >>= next') cursor') := by
  rw [range_eq, range_eq, if_pos ordered, if_pos ordered']
  exact tail _ _

theorem lower {less less' : Nat} {result result' : EStateM.Result Interrupt Cursor α}
    (agree : Agree low low' Mid result result') (le : less ≤ low) (le' : less' ≤ low') :
    Agree less less' Mid result result' := by
  cases agree with
  | completed alike both => exact .completed (alike.lower le le') both
  | interrupted alike => exact .interrupted (alike.lower le le')

theorem ite {condition condition' : Prop} {_ : Decidable condition} {_ : Decidable condition'}
    {other other' : Reading α} (same : condition ↔ condition')
    (holds : condition → Agree low low' Mid (first cursor) (first' cursor'))
    (fails : ¬condition → Agree low low' Mid (other cursor) (other' cursor')) :
    Agree low low' Mid ((if condition then first else other) cursor)
      ((if condition' then first' else other') cursor') := by
  by_cases met : condition
  · rw [if_pos met, if_pos (same.mp met)]
    exact holds met
  · rw [if_neg met, if_neg fun met' => met (same.mpr met')]
    exact fails met

theorem expect {kind : TokenKind} (alike : cursor.Alike low low' cursor') :
    Agree low low' (fun token token' last last' => token.value = token'.value ∧
      Cursor.Joins low low' token.range token'.range last last')
      (expect kind cursor) (expect kind cursor') := by
  have current := alike.current
  unfold Reading.expect
  rw [current_bind, current_bind]
  refine .ite (by rw [current.kind]) (fun _ => ?_) fun _ => ?_
  · exact .completed alike.next ⟨current.value, alike.joins_next⟩
  · rw [current.kind, current.value]
    exact .completed (alike.report _ _ _) ⟨current.value, alike.joins_current.report _ _ _⟩

end Agree

/-- Whether two readings end alike from any places that are alike, with results that look the
same. -/
structure Agrees (view : α → β) (reading reading' : Reading α) : Prop where
  ends : ∀ {low low' : Nat} {cursor cursor' : Cursor}, cursor.Alike low low' cursor' →
    Agree low low' (fun value value' _ _ => view value = view value') (reading cursor)
      (reading' cursor')

namespace Agrees

variable {α β γ δ : Type} {first first' : Reading α} {next next' : α → Reading β}
  {view : β → γ} {look : α → δ}

theorem bind (head : Agrees look first first')
    (tail : ∀ value value', look value = look value' →
      Agrees view (next value) (next' value')) :
    Agrees view (first >>= next) (first' >>= next') where
  ends alike := (head.ends alike).bind fun _ _ _ _ alike same => (tail _ _ same).ends alike

theorem bindSame (head : Agrees id first first')
    (tail : ∀ value, Agrees view (next value) (next' value)) :
    Agrees view (first >>= next) (first' >>= next') := by
  refine head.bind fun value value' same => ?_
  cases same
  exact tail value

theorem bindToken {reading reading' : Reading Token} {next next' : Token → Reading β}
    (head : Agrees Token.bare reading reading')
    (tail : ∀ kind value range range',
      Agrees view (next ⟨kind, value, range⟩) (next' ⟨kind, value, range'⟩)) :
    Agrees view (reading >>= next) (reading' >>= next') := by
  refine head.bind fun ⟨kind, value, range⟩ ⟨kind', value', range'⟩ same => ?_
  cases same
  exact tail kind value range range'

theorem bindOption {reading reading' : Reading (Option α)} {next next' : Option α → Reading β}
    (head : Agrees (Option.map look) reading reading')
    (absent : Agrees view (next none) (next' none))
    (present : ∀ value value', look value = look value' →
      Agrees view (next (some value)) (next' (some value'))) :
    Agrees view (reading >>= next) (reading' >>= next') := by
  refine head.bind fun found found' same => ?_
  cases found with
  | none =>
      cases found' with
      | none => exact absent
      | some value' => cases same
  | some value =>
      cases found' with
      | none => cases same
      | some value' => exact present value value' (Option.some.inj same)

theorem pure {value value' : β} (same : view value = view value') :
    Agrees view (Pure.pure value) (Pure.pure value') where
  ends alike := .completed alike same

theorem map {function function' : α → β} (head : Agrees look first first')
    (same : ∀ value value', look value = look value' →
      view (function value) = view (function' value')) :
    Agrees view (function <$> first) (function' <$> first') :=
  head.bind fun value value' known => pure (same value value' known)

theorem ite {condition : Prop} {_ : Decidable condition} {left left' right right' : Reading β}
    (holds : Agrees view left left') (fails : Agrees view right right') :
    Agrees view (if condition then left else right) (if condition then left' else right') where
  ends alike := .ite Iff.rfl (fun _ => holds.ends alike) fun _ => fails.ends alike

theorem looking {look look' : Cursor → β}
    (same : ∀ {low low' cursor cursor'}, cursor.Alike low low' cursor' →
      view (look cursor) = view (look' cursor')) :
    Agrees view (fun cursor => .ok (look cursor) cursor)
      (fun cursor => .ok (look' cursor) cursor) where
  ends alike := .completed alike (same alike)

theorem current : Agrees Token.bare current current :=
  .looking fun alike => Prod.ext alike.current.kind alike.current.value

theorem peek : Agrees Token.bare peek peek := by
  refine .looking fun {_ _ cursor cursor'} alike => ?_
  rw [cursor.peek_eq_next, cursor'.peek_eq_next]
  exact Prod.ext alike.next.current.kind alike.next.current.value

theorem remaining : Agrees id remaining remaining :=
  .looking fun alike => alike.length_rest

theorem isAt {kind : TokenKind} : Agrees id (isAt kind) (isAt kind) :=
  .looking fun alike => by rw [alike.current.kind]

theorem endsSequence {stops : List TokenKind} :
    Agrees id (endsSequence stops) (endsSequence stops) :=
  .looking fun alike => alike.endsSequence stops

theorem advance : Agrees Token.bare advance advance where
  ends alike := .completed alike.next (Prod.ext alike.current.kind alike.current.value)

theorem report {fault : SyntaxFault} {range range' : ByteRange} :
    Agrees id (report fault range) (report fault range') where
  ends alike := .completed (alike.report fault range range') rfl

theorem interrupt {reason : Interrupt} :
    Agrees view (interrupt reason) (interrupt reason) where
  ends alike := .interrupted alike

theorem abandoning {fault : SyntaxFault} {mark mark' : Cursor → ByteRange} :
    Agrees view (fun cursor => .error .tooDeep (cursor.report fault (mark cursor)))
      (fun cursor => .error .tooDeep (cursor.report fault (mark' cursor))) where
  ends alike := .interrupted (alike.report fault _ _)

theorem attempt (agrees : Agrees look first first') :
    Agrees (Option.map look) (attempt first) (attempt first') where
  ends {low low' cursor cursor'} alike := by
    have agree := agrees.ends alike
    unfold Reading.attempt
    generalize first cursor = result at agree
    generalize first' cursor' = result' at agree
    cases agree with
    | completed alike same => exact .completed alike (congrArg some same)
    | @interrupted reason _ _ alike =>
        cases reason with
        | recover => exact .completed alike rfl
        | tooDeep => exact .interrupted alike
        | number fault => exact .interrupted alike

end Agrees

end Reading

end EquationMap
