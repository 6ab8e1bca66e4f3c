import EquationMap.Proofs.Parsing.Reading
import EquationMap.Proofs.Tree.Depth

namespace EquationMap

/-- Whether the tokens from a place on, and the faults found before it, end at offsets of some
kind. -/
structure Cursor.EndsAt (IsEnd : Nat → Prop) (cursor : Cursor) : Prop where
  tokens : ∀ token ∈ cursor.tokens, token.range.EndsAt IsEnd
  errors : ∀ error ∈ cursor.errors, error.range.EndsAt IsEnd

namespace Cursor.EndsAt

variable {IsEnd : Nat → Prop} {cursor : Cursor}

theorem current (ends : cursor.EndsAt IsEnd) : cursor.current.range.EndsAt IsEnd :=
  ends.tokens _ List.mem_cons_self

theorem next (ends : cursor.EndsAt IsEnd) : cursor.next.EndsAt IsEnd := by
  have reaches := cursor.reaches_next
  refine ⟨fun token member => ends.tokens token (reaches.tokens.subset member), ?_⟩
  unfold Cursor.next
  split <;> exact ends.errors

theorem report (ends : cursor.EndsAt IsEnd) {range : ByteRange} (placed : range.EndsAt IsEnd)
    (fault : SyntaxFault) : (cursor.report fault range).EndsAt IsEnd where
  tokens := ends.tokens
  errors := List.forall_mem_cons.mpr ⟨placed, ends.errors⟩

end Cursor.EndsAt

namespace Reading

/-- Whether a reading keeps the ends of tokens and faults, gives results of some kind, and has
a fault to show where it breaks off, unless that is at a number. -/
structure Keeps (IsEnd : Nat → Prop) (reading : Reading α) (Good : α → Prop) : Prop where
  completed : ∀ {start value last}, start.EndsAt IsEnd → reading start = .ok value last →
    last.EndsAt IsEnd ∧ Good value
  interrupted : ∀ {start reason last}, start.EndsAt IsEnd → reading start = .error reason last →
    last.EndsAt IsEnd ∧ (last.errors = [] → ∃ fault, reason = .number fault)

namespace Keeps

variable {IsEnd : Nat → Prop} {first : Reading α} {next : α → Reading β} {Good : β → Prop}
  {Mid : α → Prop}

theorem bind (head : Keeps IsEnd first Mid)
    (tail : ∀ value, Mid value → Keeps IsEnd (next value) Good) :
    Keeps IsEnd (first >>= next) Good where
  completed := by
    intro start value last ends read
    rw [bind_apply] at read
    split at read
    · rename_i middle reached
      obtain ⟨kept, good⟩ := head.completed ends reached
      exact (tail _ good).completed kept read
    · cases read
  interrupted := by
    intro start reason last ends read
    rw [bind_apply] at read
    split at read
    · rename_i middle reached
      obtain ⟨kept, good⟩ := head.completed ends reached
      exact (tail _ good).interrupted kept read
    · rename_i broken
      cases read
      exact head.interrupted ends broken

theorem of_ok {reading : Reading α} {value : Cursor → α} {stop : Cursor → Cursor}
    (reads : ∀ cursor, reading cursor = .ok (value cursor) (stop cursor))
    (keeps : ∀ cursor, cursor.EndsAt IsEnd → (stop cursor).EndsAt IsEnd ∧ Mid (value cursor)) :
    Keeps IsEnd reading Mid where
  completed := by
    intro start _ last ends read
    cases (reads start).symm.trans read
    exact keeps start ends
  interrupted := by
    intro start reason last ends read
    cases (reads start).symm.trans read

theorem of_error {reading : Reading α} {reason : Interrupt} {stop : Cursor → Cursor}
    (breaks : ∀ cursor, reading cursor = .error reason (stop cursor))
    (keeps : ∀ cursor, cursor.EndsAt IsEnd → (stop cursor).EndsAt IsEnd ∧
      ((stop cursor).errors = [] → ∃ fault, reason = .number fault)) :
    Keeps IsEnd reading Mid where
  completed := by
    intro start value last ends read
    cases (breaks start).symm.trans read
  interrupted := by
    intro start _ last ends read
    cases (breaks start).symm.trans read
    exact keeps start ends

theorem pure {value : α} (good : Mid value) :
    Keeps IsEnd (Pure.pure value : Reading α) Mid :=
  of_ok (fun _ => rfl) fun _ ends => ⟨ends, good⟩

theorem map {function : α → β} (head : Keeps IsEnd first Mid)
    (good : ∀ value, Mid value → Good (function value)) :
    Keeps IsEnd (function <$> first) Good :=
  head.bind fun value kept => pure (good value kept)

theorem some (head : Keeps IsEnd first Mid) :
    Keeps IsEnd (Option.some <$> first) fun found => ∀ value ∈ found, Mid value :=
  head.map fun _ good _ same => Option.some.inj same ▸ good

theorem none : Keeps IsEnd (Pure.pure Option.none : Reading (Option α))
    fun found => ∀ value ∈ found, Mid value :=
  pure fun _ absent => by cases absent

theorem ite {condition : Prop} {_ : Decidable condition} {left right : Reading α}
    (holds : Keeps IsEnd left Mid) (fails : Keeps IsEnd right Mid) :
    Keeps IsEnd (if condition then left else right) Mid := by
  split
  · exact holds
  · exact fails

theorem mono {Less : α → Prop} (keeps : Keeps IsEnd first Less)
    (enough : ∀ value, Less value → Mid value) : Keeps IsEnd first Mid where
  completed := by
    intro start value last ends read
    obtain ⟨kept, good⟩ := keeps.completed ends read
    exact ⟨kept, enough value good⟩
  interrupted := keeps.interrupted

theorem looking {look : Cursor → α}
    (good : ∀ cursor, cursor.EndsAt IsEnd → Mid (look cursor)) :
    Keeps IsEnd (fun cursor => .ok (look cursor) cursor : Reading α) Mid :=
  of_ok (fun _ => rfl) fun cursor ends => ⟨ends, good cursor ends⟩

theorem current : Keeps IsEnd current fun token => token.range.EndsAt IsEnd :=
  looking fun _ ends => ends.current

theorem peek : Keeps IsEnd peek fun _ => True :=
  looking fun _ _ => trivial

theorem remaining : Keeps IsEnd remaining fun _ => True :=
  looking fun _ _ => trivial

theorem isAt {kind : TokenKind} : Keeps IsEnd (isAt kind) fun _ => True :=
  looking fun _ _ => trivial

theorem endsSequence {stops : List TokenKind} : Keeps IsEnd (endsSequence stops) fun _ => True :=
  looking fun _ _ => trivial

theorem advance : Keeps IsEnd advance fun token => token.range.EndsAt IsEnd :=
  of_ok (fun _ => rfl) fun _ ends => ⟨ends.next, ends.current⟩

theorem report {fault : SyntaxFault} {range : ByteRange} (placed : range.EndsAt IsEnd) :
    Keeps IsEnd (report fault range) fun _ => True :=
  of_ok (fun _ => rfl) fun _ ends => ⟨ends.report placed fault, trivial⟩

theorem interrupt {fault : SyntaxFault} {range : ByteRange} {reason : Interrupt}
    (placed : range.EndsAt IsEnd) :
    Keeps IsEnd (Reading.report fault range >>= fun _ => Reading.interrupt reason : Reading α)
      Mid :=
  of_error (fun _ => rfl) fun _ ends =>
    ⟨ends.report placed fault, fun clean => absurd clean (List.cons_ne_nil _ _)⟩

theorem abandoning {fault : SyntaxFault} {mark : Cursor → ByteRange}
    (placed : ∀ cursor, cursor.EndsAt IsEnd → (mark cursor).EndsAt IsEnd) :
    Keeps IsEnd (fun cursor =>
      .error .tooDeep (cursor.report fault (mark cursor)) : Reading α) Mid :=
  of_error (fun _ => rfl) fun cursor ends =>
    ⟨ends.report (placed cursor ends) fault, fun clean => absurd clean (List.cons_ne_nil _ _)⟩

theorem number {fault : NumberFault} :
    Keeps IsEnd (Reading.interrupt (.number fault) : Reading α) Mid :=
  of_error (fun _ => rfl) fun _ ends => ⟨ends, fun _ => ⟨fault, rfl⟩⟩

theorem range {start stop : Nat} (starts : IsEnd start) (stops : IsEnd stop) :
    Keeps IsEnd (range start stop) fun range => range.EndsAt IsEnd := by
  rw [range_eq]
  exact .ite (pure (.between starts stops)) number

theorem expect {kind : TokenKind} :
    Keeps IsEnd (expect kind) fun token => token.range.EndsAt IsEnd :=
  current.bind fun _ placed => .ite advance ((report placed).bind fun _ _ => pure placed)

theorem attempt (keeps : Keeps IsEnd first Mid) :
    Keeps IsEnd (attempt first) fun found => ∀ value ∈ found, Mid value where
  completed := by
    intro start found last ends read
    unfold Reading.attempt at read
    split at read
    · rename_i value _ inner
      cases read
      obtain ⟨kept, good⟩ := keeps.completed ends inner
      exact ⟨kept, fun other same => Option.some.inj same ▸ good⟩
    · rename_i inner
      cases read
      exact ⟨(keeps.interrupted ends inner).1, fun _ member => by cases member⟩
    · cases read
  interrupted := by
    intro start reason last ends read
    unfold Reading.attempt at read
    split at read
    · cases read
    · cases read
    · rename_i inner
      cases read
      exact keeps.interrupted ends inner

end Keeps

end Reading

end EquationMap
