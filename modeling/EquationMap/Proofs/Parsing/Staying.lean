import EquationMap.Proofs.Parsing.Partners
import EquationMap.Proofs.Parsing.Soundness

namespace EquationMap

/-! Reading among brackets that match. Whatever is read before a bar up to which the brackets ahead
match in kind stays before the bar, whether or not it meets faults, and of the brackets that are to
close it passes none that a group around it stops at. -/

open Grammar Reading

/-- Whether some brackets are pending at a place: up to a tail of the tokens ahead, they and all
that open are closed in their kinds. -/
def Cursor.Owes (tail : List Token) (pending : List TokenKind) (cursor : Cursor) : Prop :=
  ∃ ahead, cursor.tokens = ahead ++ tail ∧ closesAll pending ahead = true

namespace Cursor.Owes

variable {cursor : Cursor} {mark : Token} {after : List Token} {pending : List TokenKind}
  {kind : TokenKind}

theorem passing (owes : cursor.Owes (mark :: after) pending) (isBar : mark.kind = .bar)
    (inside : cursor.current.kind = .bar → pending ≠ []) :
    ∃ ahead, cursor.rest = ahead ++ mark :: after ∧ cursor.next.tokens = cursor.rest ∧
      closesAll pending (cursor.current :: ahead) = true := by
  obtain ⟨ahead, tokens, closed⟩ := owes
  unfold Cursor.tokens at tokens
  cases ahead with
  | nil =>
      obtain ⟨rfl, -⟩ := List.cons.inj tokens
      exact absurd (List.isEmpty_iff.mp closed) (inside isBar)
  | cons token ahead =>
      obtain ⟨rfl, rest⟩ := List.cons.inj tokens
      refine ⟨ahead, rest, ?_, closed⟩
      unfold Cursor.next Cursor.tokens
      rw [rest]
      cases ahead <;> rfl

theorem report (owes : cursor.Owes (mark :: after) pending) (fault : SyntaxFault)
    (range : ByteRange) : (cursor.report fault range).Owes (mark :: after) pending :=
  owes

theorem opens (owes : cursor.Owes (mark :: after) pending) (isBar : mark.kind = .bar)
    (atKind : cursor.current.kind = kind) {closer : TokenKind}
    (opener : kind.closer? = some closer) :
    cursor.next.Owes (mark :: after) (closer :: pending) := by
  subst atKind
  obtain ⟨ahead, rest, tokens, closed⟩ := owes.passing isBar fun isBar => by
    rw [isBar] at opener
    cases opener
  exact ⟨ahead, tokens.trans rest, by rwa [closesAll_opener opener] at closed⟩

theorem closes (owes : cursor.Owes (mark :: after) pending) (isBar : mark.kind = .bar)
    (atKind : cursor.current.kind = kind) (closer : kind.isCloser = true) :
    ∃ outer, pending = kind :: outer ∧ cursor.next.Owes (mark :: after) outer := by
  subst atKind
  obtain ⟨ahead, rest, tokens, closed⟩ := owes.passing isBar fun isBar => by
    rw [isBar] at closer
    cases closer
  obtain ⟨outer, same, closed⟩ := (closesAll_closer closer).mp closed
  exact ⟨outer, same, ahead, tokens.trans rest, closed⟩

theorem closes_group {closer : TokenKind} {later : List TokenKind}
    (owes : cursor.Owes (mark :: after) later) (isBar : mark.kind = .bar)
    (within : (closer :: pending).Sublist later) (isCloser : closer.isCloser = true)
    (atCloser : cursor.current.kind = closer) :
    ∃ outer, cursor.next.Owes (mark :: after) outer ∧ pending.Sublist outer := by
  obtain ⟨outer, rfl, passed⟩ := owes.closes isBar atCloser isCloser
  exact ⟨outer, passed, List.cons_sublist_cons.mp within⟩

theorem passes (owes : cursor.Owes (mark :: after) pending) (isBar : mark.kind = .bar)
    (atKind : cursor.current.kind = kind)
    (plain : kind.isOpener = false ∧ kind.isCloser = false)
    (inside : kind = .bar → pending ≠ []) : cursor.next.Owes (mark :: after) pending := by
  subst atKind
  obtain ⟨ahead, rest, tokens, closed⟩ := owes.passing isBar inside
  exact ⟨ahead, tokens.trans rest, by rwa [closesAll_mark plain.1 plain.2] at closed⟩

theorem passes_other (owes : cursor.Owes (mark :: after) pending) (isBar : mark.kind = .bar)
    (atKind : cursor.current.kind = kind)
    (plain : kind.isOpener = false ∧ kind.isCloser = false) (notBar : kind ≠ .bar) :
    cursor.next.Owes (mark :: after) pending :=
  owes.passes isBar atKind plain fun bar => absurd bar notBar

end Cursor.Owes

/-- Whether the brackets of the groups that are being read at a place stay pending up to a later
one, if what is read stops before the innermost of them. -/
def StillPending (Stops : TokenKind → Prop) (pending later : List TokenKind) : Prop :=
  ∀ groups : List TokenKind, (∀ kind ∈ groups.head?, Stops kind) →
    groups.Sublist pending → groups.Sublist later

/-- Whether what is read stops before a bar or before a pending bracket. -/
def Guarded (Stops : TokenKind → Prop) (pending : List TokenKind) : Prop :=
  Stops .bar ∨ ∃ kind ∈ pending, Stops kind

section

variable {Stops : TokenKind → Prop} {first second third : List TokenKind}

theorem StillPending.refl : StillPending Stops first first :=
  fun _ _ within => within

theorem StillPending.trans (before : StillPending Stops first second)
    (after : StillPending Stops second third) : StillPending Stops first third :=
  fun groups stops within => after groups stops (before groups stops within)

theorem StillPending.of_sublist (within : first.Sublist second) :
    StillPending Stops first second :=
  fun _ _ inner => inner.trans within

theorem StillPending.sublist (pending : StillPending (fun _ => True) first second) :
    first.Sublist second :=
  pending first (fun _ _ => trivial) (List.Sublist.refl first)

theorem StillPending.guarded (pending : StillPending Stops first second)
    (guarded : Guarded Stops first) : Guarded Stops second := by
  refine guarded.imp_right fun ⟨kind, member, stops⟩ => ⟨kind, ?_, stops⟩
  refine List.singleton_sublist.mp (pending [kind] ?_ (List.singleton_sublist.mpr member))
  simpa using stops

theorem StillPending.pass {kind : TokenKind} (goesOn : ¬Stops kind) :
    StillPending Stops (kind :: first) first := by
  intro groups stops within
  cases groups with
  | nil => exact List.nil_sublist first
  | cons inner groups =>
      rcases within with _ | within | within
      · assumption
      · exact absurd (stops kind (by simp)) goesOn

end

/-- Whether a reading leads to a place before the tail at which brackets are pending that were at
its start, unless it gives up the whole text. -/
def Stays {α : Type} (tail : List Token) (Stops : TokenKind → Prop) (pending : List TokenKind) :
    EStateM.Result Interrupt Cursor α → Prop
  | .ok _ last | .error .recover last =>
      ∃ later, last.Owes tail later ∧ StillPending Stops pending later
  | .error _ _ => True

namespace Stays

variable {α β : Type} {tail : List Token} {Stops Less : TokenKind → Prop}
  {pending later : List TokenKind} {cursor : Cursor} {first : Reading α} {next : α → Reading β}

theorem done {value : α} (owes : cursor.Owes tail pending) :
    Stays tail Stops pending (.ok value cursor : EStateM.Result Interrupt Cursor α) :=
  ⟨pending, owes, .refl⟩

theorem recover (owes : cursor.Owes tail pending) :
    Stays tail Stops pending (.error .recover cursor : EStateM.Result Interrupt Cursor α) :=
  ⟨pending, owes, .refl⟩

theorem after {result : EStateM.Result Interrupt Cursor α}
    (before : StillPending Stops pending later) (stays : Stays tail Stops later result) :
    Stays tail Stops pending result := by
  rcases result with ⟨value, last⟩ | ⟨_ | _ | _, last⟩
  · obtain ⟨latest, owes, still⟩ := stays
    exact ⟨latest, owes, before.trans still⟩
  · obtain ⟨latest, owes, still⟩ := stays
    exact ⟨latest, owes, before.trans still⟩
  · trivial
  · trivial

theorem of_any {result : EStateM.Result Interrupt Cursor α}
    (stays : Stays tail (fun _ => True) pending result) : Stays tail Stops pending result := by
  rcases result with ⟨value, last⟩ | ⟨_ | _ | _, last⟩
  · obtain ⟨later, owes, still⟩ := stays
    exact ⟨later, owes, .of_sublist still.sublist⟩
  · obtain ⟨later, owes, still⟩ := stays
    exact ⟨later, owes, .of_sublist still.sublist⟩
  · trivial
  · trivial

theorem bind (head : Stays tail Stops pending (first cursor))
    (rest : ∀ {value middle later}, first cursor = .ok value middle → middle.Owes tail later →
      StillPending Stops pending later → Stays tail Stops later (next value middle)) :
    Stays tail Stops pending ((first >>= next) cursor) := by
  rw [bind_apply]
  cases read : first cursor with
  | ok value middle =>
      rw [read] at head
      obtain ⟨later, owes, still⟩ := head
      exact .after still (rest read owes still)
  | error reason last =>
      rw [read] at head
      cases reason with
      | recover => exact head
      | tooDeep | number => trivial

theorem reported {fault : SyntaxFault} {range : ByteRange} {next : Unit → Reading β}
    (rest : Stays tail Stops pending (next () (cursor.report fault range))) :
    Stays tail Stops pending ((report fault range >>= next) cursor) :=
  rest

theorem ranging {start stop : Nat} {next : ByteRange → Reading β}
    (rest : ∀ range, Stays tail Stops pending (next range cursor)) :
    Stays tail Stops pending ((Reading.range start stop >>= next) cursor) := by
  rw [range_eq]
  split
  · exact rest _
  · trivial

theorem map {function : α → β} (stays : Stays tail Stops pending (first cursor)) :
    Stays tail Stops pending ((function <$> first) cursor) :=
  stays.bind fun _ owes _ => done owes

theorem attempt (stays : Stays tail Stops pending (first cursor)) :
    Stays tail Stops pending (Reading.attempt first cursor) := by
  unfold Reading.attempt
  cases read : first cursor with
  | ok value last =>
      rw [read] at stays
      exact stays
  | error reason last =>
      rw [read] at stays
      cases reason with
      | recover => exact stays
      | tooDeep | number => trivial

/-- What stays before an earlier bar, outside of brackets, stays before a later one with the
brackets pending that close between them. -/
theorem of_earlier {tail : List Token} {mark : Token} {between : List Token}
    (closed : closesAll pending between = true)
    {result : EStateM.Result Interrupt Cursor α}
    (neutral : mark.kind.isOpener = false ∧ mark.kind.isCloser = false)
    (stays : Stays (mark :: between ++ tail) Less [] result) :
    Stays tail (fun _ => True) pending result := by
  have widen {inner : List TokenKind} {cursor : Cursor}
      (owes : cursor.Owes (mark :: between ++ tail) inner) :
      cursor.Owes tail (inner ++ pending) := by
    obtain ⟨ahead, tokens, inside⟩ := owes
    refine ⟨ahead ++ mark :: between, by simp [tokens], closesAll_append inside ?_⟩
    rwa [closesAll_mark neutral.1 neutral.2]
  rcases result with ⟨value, last⟩ | ⟨_ | _ | _, last⟩
  · obtain ⟨later, owes, -⟩ := stays
    exact ⟨_, widen owes, .of_sublist (List.sublist_append_right _ _)⟩
  · obtain ⟨later, owes, -⟩ := stays
    exact ⟨_, widen owes, .of_sublist (List.sublist_append_right _ _)⟩
  · trivial
  · trivial

theorem group {closer : TokenKind} (stops : Less closer)
    (inside : Stays tail Less (closer :: pending) (first cursor))
    (rest : ∀ {value middle later}, first cursor = .ok value middle → middle.Owes tail later →
      (closer :: pending).Sublist later →
        Stays tail (fun _ => True) pending (next value middle)) :
    Stays tail (fun _ => True) pending ((first >>= next) cursor) := by
  have within {later : List TokenKind} (still : StillPending Less (closer :: pending) later) :
      (closer :: pending).Sublist later :=
    still _ (by simpa using stops) (List.Sublist.refl _)
  rw [bind_apply]
  cases read : first cursor with
  | ok value middle =>
      rw [read] at inside
      obtain ⟨later, owes, still⟩ := inside
      exact rest read owes (within still)
  | error reason last =>
      rw [read] at inside
      cases reason with
      | recover =>
          obtain ⟨later, owes, still⟩ := inside
          exact ⟨later, owes, .of_sublist ((List.sublist_cons_self _ _).trans (within still))⟩
      | tooDeep | number => trivial

end Stays

/-- The kinds of tokens that a phrase stops at; code stops at everything that is not its own. -/
def Phrase.StopsAt : Phrase → TokenKind → Prop
  | .atom stops | .script _ stops _ | .denominator _ _ stops => (· ∈ stops)
  | .arguments _ | .attachedBlock _ | .field _ | .expression _ | .operand _ _ _ _ => fun _ => True

def Phrase.Ready (cursor : Cursor) : Phrase → Prop
  | .atom stops | .script _ stops _ | .denominator _ _ stops => cursor.endsSequence stops = false
  | .arguments _ => cursor.current.kind = .lparen
  | .attachedBlock _ => cursor.current.kind = .lbracket
  | .field _ => cursor.current.kind = .dot
  | .expression _ | .operand _ _ _ _ => True

namespace Grammar

/-- Whether phrases stay before any bar up to which the brackets ahead match. -/
def StaysBefore (deeper : Phrase → Reading Node) : Prop :=
  ∀ (phrase : Phrase) {cursor : Cursor} {mark : Token} {after : List Token}
    {pending : List TokenKind}, mark.kind = .bar → cursor.Owes (mark :: after) pending →
      Guarded phrase.StopsAt pending → phrase.Ready cursor →
        Stays (mark :: after) phrase.StopsAt pending (deeper phrase cursor)

variable {deeper : Phrase → Reading Node} {cursor : Cursor} {mark : Token} {after : List Token}
  {pending : List TokenKind}

theorem not_mem_of_goesOn {stops : List TokenKind} (goesOn : cursor.endsSequence stops = false) :
    cursor.current.kind ∉ stops := by
  unfold Cursor.endsSequence at goesOn
  rw [Bool.or_eq_false_iff] at goesOn
  simpa using goesOn.2

theorem names_plain {token : Token} (names : namesArgument token = true) :
    (token.kind.isOpener = false ∧ token.kind.isCloser = false) ∧ token.kind ≠ .bar := by
  simp only [namesArgument, Bool.and_eq_true, Bool.or_eq_true, decide_eq_true_eq] at names
  rcases names.1.1 with kind | kind <;> rw [kind] <;> decide

theorem binary_plain {kind : TokenKind} {op : BinaryOp} (writes : BinaryOp.ofKind? kind = some op) :
    (kind.isOpener = false ∧ kind.isCloser = false) ∧ kind ≠ .bar := by
  cases kind <;> first | decide | cases writes

theorem unary_plain {kind : TokenKind} {op : UnaryOp} (writes : UnaryOp.ofKind? kind = some op) :
    (kind.isOpener = false ∧ kind.isCloser = false) ∧ kind ≠ .bar := by
  cases kind <;> first | decide | cases writes

theorem pending_of_guarded {stops : List TokenKind} (guarded : Guarded (· ∈ stops) pending)
    (goesOn : cursor.current.kind ∉ stops) (isBar : cursor.current.kind = .bar) :
    pending ≠ [] := by
  rintro rfl
  rcases guarded with stopped | ⟨kind, member, -⟩
  · rw [isBar] at goesOn
    exact goesOn stopped
  · cases member

theorem exists_pending_next {stops : List TokenKind} (isBar : mark.kind = .bar)
    (owes : cursor.Owes (mark :: after) pending) (guarded : Guarded (· ∈ stops) pending)
    (goesOn : cursor.current.kind ∉ stops) :
    ∃ later, cursor.next.Owes (mark :: after) later ∧ StillPending (· ∈ stops) pending later := by
  rcases cursor.current.kind.cases_bracket with ⟨closer, opens⟩ | closes | plain
  · exact ⟨_, owes.opens isBar rfl opens, .of_sublist (List.sublist_cons_self _ _)⟩
  · obtain ⟨outer, rfl, passed⟩ := owes.closes isBar rfl closes
    exact ⟨outer, passed, .pass goesOn⟩
  · exact ⟨pending, owes.passes isBar rfl plain (pending_of_guarded guarded goesOn), .refl⟩

theorem expect_stays {closer : TokenKind} {later : List TokenKind} (isBar : mark.kind = .bar)
    (owes : cursor.Owes (mark :: after) later) (within : (closer :: pending).Sublist later)
    (isCloser : closer.isCloser = true) :
    Stays (mark :: after) (fun _ => True) pending (expect closer cursor) := by
  unfold expect
  simp only [current_bind, branch_apply]
  split
  · rename_i atCloser
    obtain ⟨outer, passed, still⟩ := owes.closes_group isBar within isCloser atCloser
    exact ⟨outer, passed, .of_sublist still⟩
  · exact ⟨later, owes, .of_sublist ((List.sublist_cons_self _ _).trans within)⟩

theorem expect_ident_stays (isBar : mark.kind = .bar) (owes : cursor.Owes (mark :: after) pending) :
    Stays (mark :: after) (fun _ => True) pending (expect .ident cursor) := by
  unfold expect
  simp only [current_bind, branch_apply]
  split
  · rename_i atName
    exact .done (owes.passes_other isBar atName ⟨rfl, rfl⟩ (by decide))
  · exact .done owes

theorem groupOf_stays {items : List Node} {afterComma : Bool} {place : Place} {tail : List Token}
    (owes : cursor.Owes tail pending) :
    Stays tail (fun _ => True) pending (groupOf items afterComma place cursor) := by
  unfold groupOf
  simp only [branch_apply]
  split
  · split <;> exact .done owes
  · split <;> exact .done owes

section

variable (stays : StaysBefore deeper) (isBar : mark.kind = .bar)
  (owes : cursor.Owes (mark :: after) pending)

include isBar owes

theorem primesFrom_stays {count fuel : Nat} {range : ByteRange} :
    Stays (mark :: after) (fun _ => True) pending (primesFrom count range fuel cursor) := by
  induction fuel generalizing count range cursor with
  | zero => exact .done owes
  | succ fuel ih =>
      unfold primesFrom
      simp only [isAt_bind, branch_apply, advance_bind]
      split
      · rename_i atPrime
        exact ih (owes.passes_other isBar (of_decide_eq_true atPrime) ⟨rfl, rfl⟩ (by decide))
      · exact .done owes

theorem primes_stays : Stays (mark :: after) (fun _ => True) pending (primes cursor) := by
  unfold primes
  simp only [current_bind, remaining_bind]
  exact primesFrom_stays isBar owes

include stays

theorem fractionFrom_stays {stops : List TokenKind} {num : Node}
    (guarded : Guarded (· ∈ stops) pending) :
    Stays (mark :: after) (· ∈ stops) pending (fractionFrom deeper stops num cursor) := by
  unfold fractionFrom
  simp only [isAt_bind, branch_apply, advance_bind, endsSequence_bind]
  split
  · rename_i atSlash
    have passed := owes.passes_other isBar (of_decide_eq_true atSlash) ⟨rfl, rfl⟩ (by decide)
    split
    · exact .done passed
    · rename_i goesOn
      exact stays (.denominator _ _ stops) isBar passed guarded (Bool.eq_false_iff.mpr goesOn)
  · exact .done owes

theorem script_stays {side : ScriptSide} {token : Token} {stops : List TokenKind}
    {stop : Option ScriptSide} (guarded : Guarded (· ∈ stops) pending) :
    Stays (mark :: after) (· ∈ stops) pending (script deeper side token stops stop cursor) := by
  unfold script
  simp only [branch_apply, endsSequence_bind]
  split
  · exact .done owes
  · rename_i goesOn
    exact .map (stays (.script _ stops _) isBar owes guarded (Bool.eq_false_iff.mpr goesOn))

theorem secondScript_stays {side : ScriptSide} {stops : List TokenKind} {found : Scripts}
    (guarded : Guarded (· ∈ stops) pending) :
    Stays (mark :: after) (· ∈ stops) pending (secondScript deeper side stops found cursor) := by
  unfold secondScript
  simp only [isAt_bind, branch_apply, advance_bind]
  split
  · rename_i atMark
    have passed := owes.passes_other isBar (of_decide_eq_true atMark)
      (by cases side <;> decide) (by cases side <;> decide)
    refine (script_stays stays isBar passed guarded).bind fun {found _ _} _ owes _ => ?_
    cases found <;> exact .done owes
  · exact .done owes

theorem scripts_stays {stops : List TokenKind} {stop : Option ScriptSide}
    (guarded : Guarded (· ∈ stops) pending) :
    Stays (mark :: after) (· ∈ stops) pending (scripts deeper stops stop cursor) := by
  unfold scripts
  simp only [current_bind]
  cases ofKind : ScriptSide.ofKind? cursor.current.kind with
  | none => exact .done owes
  | some side =>
      have kind := ScriptSide.kind_of_ofKind? ofKind
      simp only [branch_apply, advance_bind]
      split
      · exact .done owes
      · have passed := owes.passes_other isBar kind (by cases side <;> decide)
          (by cases side <;> decide)
        refine (script_stays stays isBar passed guarded).bind fun {found _ _} _ owes still => ?_
        cases found with
        | none => exact .done owes
        | some node => exact secondScript_stays stays isBar owes (still.guarded guarded)

theorem attachment_stays {stops : List TokenKind} {stop : Option ScriptSide}
    (guarded : Guarded (· ∈ stops) pending) (goesOn : cursor.endsSequence stops = false) :
    Stays (mark :: after) (· ∈ stops) pending (attachment deeper stops stop cursor) := by
  unfold attachment
  refine (stays (.atom stops) isBar owes guarded goesOn).bind fun {base _ _} _ owes still => ?_
  have marked {marks : Option Primes} {cursor : Cursor} {pending : List TokenKind}
      (owes : cursor.Owes (mark :: after) pending) (guarded : Guarded (· ∈ stops) pending) :
      Stays (mark :: after) (· ∈ stops) pending ((scripts deeper stops stop >>= fun found =>
        if marks.isNone = true ∧ found.last.isNone = true then pure base
        else pure (.attach base found.bottom found.top marks
          ⟨attachedRange base marks found, .detached⟩)) cursor) := by
    refine (scripts_stays stays isBar owes guarded).bind fun _ owes _ => ?_
    simp only [branch_apply]
    split <;> exact .done owes
  have guarded := still.guarded guarded
  simp only [isAt_bind, branch_apply]
  split
  · rename_i atPrime
    have primes_stay : Stays (mark :: after) (· ∈ stops) _ ((some <$> primes) _) :=
      Stays.of_any (.map (primes_stays isBar owes))
    exact primes_stay.bind fun _ owes still => marked owes (still.guarded guarded)
  · exact marked owes guarded

theorem fraction_stays {stops : List TokenKind} (guarded : Guarded (· ∈ stops) pending)
    (goesOn : cursor.endsSequence stops = false) :
    Stays (mark :: after) (· ∈ stops) pending (fraction deeper stops cursor) := by
  unfold fraction
  exact (attachment_stays stays isBar owes guarded goesOn).bind fun _ owes still =>
    fractionFrom_stays stays isBar owes (still.guarded guarded)

theorem codeItem_stays :
    Stays (mark :: after) (fun _ => True) pending (codeItem deeper cursor) := by
  unfold codeItem
  simp only [isAt_bind, branch_apply, advance_bind]
  split
  · rename_i atDots
    have passed := owes.passes_other isBar (of_decide_eq_true atDots) ⟨rfl, rfl⟩ (by decide)
    exact (stays (.expression 0) isBar passed (.inl trivial) trivial).bind
      fun _ owes _ => .done owes
  · refine (stays (.expression 0) isBar owes (.inl trivial) trivial).bind
      fun {expr _ _} _ owes _ => ?_
    simp only [isAt_bind, branch_apply, advance_bind]
    split
    · rename_i atColon
      have passed := owes.passes_other isBar (of_decide_eq_true atColon) ⟨rfl, rfl⟩ (by decide)
      refine (stays (.expression 0) isBar passed (.inl trivial) trivial).bind
        fun _ owes _ => ?_
      cases expr <;> exact .done owes
    · exact .done owes

theorem codeTail_stays {expr : Node} :
    Stays (mark :: after) (fun _ => True) pending (codeTail deeper expr cursor) := by
  unfold codeTail
  simp only [current_bind, branch_apply]
  split
  · rename_i group
    exact stays (.arguments expr) isBar owes (.inl trivial) group.1
  · split
    · rename_i block
      exact stays (.attachedBlock expr) isBar owes (.inl trivial) block.1
    · split
      · rename_i dot
        exact stays (.field expr) isBar owes (.inl trivial) dot
      · exact .done owes

theorem expressionFrom_stays {power : Nat} {lhs : Node} :
    Stays (mark :: after) (fun _ => True) pending (expressionFrom deeper power lhs cursor) := by
  unfold expressionFrom
  simp only [current_bind]
  cases writes : BinaryOp.ofKind? cursor.current.kind with
  | none => exact .done owes
  | some op =>
      simp only [branch_apply, advance_bind]
      split
      · exact .done owes
      · obtain ⟨plain, notBar⟩ := binary_plain writes
        have passed := owes.passes_other isBar rfl plain notBar
        exact stays (.operand lhs op _ power) isBar passed (.inl trivial) trivial

theorem codeItemsFrom_stays {found : List Node} {afterComma : Bool} {fuel : Nat} :
    Stays (mark :: after) (fun _ => True) pending
      (codeItemsFrom deeper found afterComma fuel cursor) := by
  induction fuel generalizing found afterComma cursor pending with
  | zero => exact .done owes
  | succ fuel ih =>
      unfold codeItemsFrom
      simp only [current_bind, branch_apply]
      split
      · exact .done owes
      · refine (codeItem_stays stays isBar owes).bind fun _ owes _ => ?_
        simp only [isAt_bind, branch_apply, advance_bind]
        split
        · rename_i atComma
          exact ih (owes.passes_other isBar (of_decide_eq_true atComma) ⟨rfl, rfl⟩ (by decide))
        · exact .done owes

theorem codeArgumentsFrom_stays {found : List Node} {fuel : Nat} :
    Stays (mark :: after) (fun _ => True) pending
      (codeArgumentsFrom deeper found fuel cursor) := by
  induction fuel generalizing found cursor pending with
  | zero => exact .done owes
  | succ fuel ih =>
      unfold codeArgumentsFrom
      simp only [current_bind, branch_apply]
      split
      · exact .done owes
      · refine (codeItem_stays stays isBar owes).bind fun {item middle later} _ owes _ => ?_
        have named : Stays (mark :: after) (fun _ => True) later (codeArgument item middle) := by
          unfold codeArgument
          split <;> exact .done owes
        refine named.bind fun _ owes _ => ?_
        simp only [isAt_bind, branch_apply, advance_bind]
        split
        · rename_i atComma
          exact ih (owes.passes_other isBar (of_decide_eq_true atComma) ⟨rfl, rfl⟩ (by decide))
        · exact .done owes

theorem codeGroup_stays (opening : cursor.current.kind = .lparen) :
    Stays (mark :: after) (fun _ => True) pending (codeGroup deeper cursor) := by
  unfold codeGroup
  simp only [advance_bind, isAt_bind, branch_apply, peek_bind]
  have opened := owes.opens isBar opening rfl
  have closed {cursor : Cursor} (owes : cursor.Owes (mark :: after) (.rparen :: pending))
      (atCloser : cursor.current.kind = .rparen) : cursor.next.Owes (mark :: after) pending := by
    obtain ⟨outer, same, passed⟩ := owes.closes isBar atCloser rfl
    exact (List.cons.inj same).2 ▸ passed
  split
  · rename_i atCloser
    exact .done (closed opened (of_decide_eq_true atCloser))
  · split
    · rename_i empty
      obtain ⟨atColon, atCloser⟩ := Bool.and_eq_true_iff.mp empty
      rw [cursor.next.peek_eq_next] at atCloser
      have passed := opened.passes_other isBar (of_decide_eq_true atColon) ⟨rfl, rfl⟩ (by decide)
      exact .done (closed passed (of_decide_eq_true atCloser))
    · unfold codeItems
      refine Stays.group ?_
        (codeItemsFrom_stays stays isBar opened) fun {found _ _} _ owes within => ?_
      · trivial
      · exact (expect_stays isBar owes within rfl).bind fun _ owes _ => groupOf_stays owes

variable [forward : ∀ phrase, GoesForward (deeper phrase)]

theorem sequenceFrom_stays {stops : List TokenKind} {found : List Node} {fuel : Nat}
    (guarded : Guarded (· ∈ stops) pending) :
    Stays (mark :: after) (· ∈ stops) pending (sequenceFrom deeper stops found fuel cursor) := by
  -- On the turns that are left. A turn that reads nothing passes a token, which may open a bracket.
  induction fuel generalizing found cursor pending with
  | zero => exact .done owes
  | succ fuel ih =>
      unfold sequenceFrom
      simp only [endsSequence_bind, branch_apply, remaining_bind]
      split
      · exact .done owes
      · rename_i goesOn
        have goesOn := Bool.eq_false_iff.mpr goesOn
        refine (fraction_stays stays isBar owes guarded goesOn).attempt.bind
          fun {attempted middle later} read owes still => ?_
        have guarded := still.guarded guarded
        cases attempted with
        | none =>
            simp only [remaining_bind, branch_apply, advance_bind]
            split
            · rename_i same
              have here : middle.tokens = cursor.tokens :=
                (GoesForward.completed read).tokens.eq_of_length
                  (by simpa [Cursor.tokens] using same)
              have current : middle.current = cursor.current := (List.cons.inj here).1
              obtain ⟨latest, owes, still⟩ := exists_pending_next isBar owes guarded
                (current ▸ not_mem_of_goesOn goesOn)
              exact .after still (ih owes (still.guarded guarded))
            · exact ih owes guarded
        | some expr =>
            simp only [endsSequence_bind, branch_apply]
            split
            · cases operatorSymbol? expr with
              | none => exact ih owes guarded
              | some symbol => exact .reported (ih (owes.report _ _) guarded)
            · exact ih owes guarded

theorem sequence_stays {stops : List TokenKind} (guarded : Guarded (· ∈ stops) pending) :
    Stays (mark :: after) (· ∈ stops) pending (sequence deeper stops cursor) := by
  unfold sequence
  simp only [remaining_bind]
  exact sequenceFrom_stays stays isBar owes guarded

theorem delimited_stays {closer : TokenKind}
    (opener : cursor.current.kind.closer? = some closer) :
    Stays (mark :: after) (fun _ => True) pending (delimited deeper closer cursor) := by
  unfold delimited
  simp only [advance_bind]
  have inside := sequence_stays stays isBar (owes.opens isBar rfl opener)
    (.inr ⟨closer, List.mem_cons_self, List.mem_singleton_self closer⟩)
  refine inside.group (List.mem_singleton_self closer) fun _ owes within => ?_
  simp only [isAt_bind, branch_apply, advance_bind]
  split
  · rename_i atCloser
    obtain ⟨outer, passed, still⟩ := owes.closes_group isBar within
      (TokenKind.isCloser_of_closer? opener) (of_decide_eq_true atCloser)
    rw [pure_bind]
    exact .ranging fun _ => ⟨outer, passed, .of_sublist still⟩
  · refine .reported ?_
    simp only [current_bind, pure_bind]
    exact .ranging fun _ =>
      ⟨_, owes.report _ _, .of_sublist ((List.sublist_cons_self _ _).trans within)⟩

theorem bars_stay {stops : List TokenKind} (bar : cursor.current.kind = .bar)
    (inner : pending ≠ []) (found : closesBar stops 0 cursor.rest = true) :
    Stays (mark :: after) (fun _ => True) pending (delimited deeper .bar cursor) := by
  obtain ⟨ahead, rest, tokens, closed⟩ := owes.passing isBar fun _ => inner
  rw [closesAll_mark (by rw [bar]; rfl) (by rw [bar]; rfl)] at closed
  obtain ⟨between, partner, others, split, isPartner⟩ := closesBar_iff.mp found
  have isPartner : IsPartner stops ([] : List TokenKind).length between partner := isPartner
  obtain ⟨later, rfl, inside, outside⟩ :=
    isPartner.exists_later (rest.symm.trans split) closed inner
  have neutral : partner.kind.isOpener = false ∧ partner.kind.isCloser = false := by
    rw [isPartner.isBar]
    exact ⟨rfl, rfl⟩
  have opened : cursor.next.Owes (partner :: (later ++ mark :: after)) [] :=
    ⟨between, by rw [tokens, rest]; simp, inside⟩
  have body := sequence_stays stays isPartner.isBar opened (.inl (List.mem_singleton_self _))
  unfold delimited
  simp only [advance_bind]
  refine (Stays.of_earlier outside neutral body).bind fun _ owes still => ?_
  simp only [isAt_bind, branch_apply, advance_bind]
  split
  · rename_i atBar
    rw [pure_bind]
    refine .ranging fun _ =>
      .done (owes.passes isBar (of_decide_eq_true atBar) ⟨rfl, rfl⟩ fun _ none => inner ?_)
    exact List.sublist_nil.mp (none ▸ still.sublist)
  · refine .reported ?_
    simp only [current_bind, pure_bind]
    exact .ranging fun _ => .done (owes.report _ _)

theorem argumentValue_stays (guarded : Guarded (· ∈ argumentStops) pending) :
    Stays (mark :: after) (· ∈ argumentStops) pending (argumentValue deeper cursor) := by
  unfold argumentValue
  simp only [current_bind]
  refine (sequence_stays stays isBar owes guarded).bind fun _ owes _ => ?_
  split
  · exact .done owes
  · exact .ranging fun _ => .done owes

theorem argument_stays (guarded : Guarded (· ∈ argumentStops) pending) :
    Stays (mark :: after) (· ∈ argumentStops) pending (argument deeper cursor) := by
  unfold argument
  simp only [current_bind, peek_bind, branch_apply, advance_bind]
  split
  · rename_i names
    obtain ⟨names, isColon⟩ := Bool.and_eq_true_iff.mp names
    obtain ⟨plain, notBar⟩ := names_plain names
    have named := owes.passes_other isBar rfl plain notBar
    rw [cursor.peek_eq_next] at isColon
    have labelled := named.passes_other isBar (of_decide_eq_true isColon) ⟨rfl, rfl⟩ (by decide)
    exact (argumentValue_stays stays isBar labelled guarded).bind fun _ owes _ => .done owes
  · exact argumentValue_stays stays isBar owes guarded

theorem argumentsFrom_stays {found : ArgumentRows} {fuel : Nat}
    (guarded : Guarded (· ∈ argumentStops) pending) :
    Stays (mark :: after) (· ∈ argumentStops) pending (argumentsFrom deeper found fuel cursor) := by
  induction fuel generalizing found cursor pending with
  | zero => exact .done owes
  | succ fuel ih =>
      unfold argumentsFrom
      simp only [current_bind, branch_apply]
      split
      · exact .done owes
      · refine (argument_stays stays isBar owes guarded).bind fun _ owes still => ?_
        have guarded := still.guarded guarded
        simp only [current_bind]
        cases kind : Token.kind (Cursor.current _)
        case comma => exact ih (owes.passes_other isBar kind ⟨rfl, rfl⟩ (by decide)) guarded
        case semicolon => exact ih (owes.passes_other isBar kind ⟨rfl, rfl⟩ (by decide)) guarded
        all_goals exact ih owes guarded

theorem mathCall_stays (name : cursor.current.kind = .ident)
    (opening : cursor.next.current.kind = .lparen) :
    Stays (mark :: after) (fun _ => True) pending (mathCall deeper cursor) := by
  unfold mathCall
  simp only [advance_bind, remaining_bind]
  have named := owes.passes_other isBar name ⟨rfl, rfl⟩ (by decide)
  refine Stays.group ?_ (argumentsFrom_stays stays isBar (named.opens isBar opening rfl)
    (.inr ⟨.rparen, List.mem_cons_self, by decide⟩)) fun _ owes within => ?_
  · decide
  simp only [isAt_bind, branch_apply, advance_bind]
  split
  · rename_i atCloser
    obtain ⟨outer, passed, still⟩ :=
      owes.closes_group isBar within rfl (of_decide_eq_true atCloser)
    exact ⟨outer, passed, .of_sublist still⟩
  · exact ⟨_, owes, .of_sublist ((List.sublist_cons_self _ _).trans within)⟩

theorem contentBlock_stays (opening : cursor.current.kind = .lbracket) :
    Stays (mark :: after) (fun _ => True) pending (contentBlock deeper cursor) := by
  unfold contentBlock
  simp only [advance_bind]
  have inside := sequence_stays stays isBar (owes.opens isBar opening rfl)
    (.inr ⟨.rbracket, List.mem_cons_self, List.mem_singleton_self _⟩)
  refine inside.group (List.mem_singleton_self _) fun _ owes within => ?_
  exact (expect_stays isBar owes within rfl).bind fun _ owes _ => .done owes

theorem codeAtom_stays :
    Stays (mark :: after) (fun _ => True) pending (codeAtom deeper cursor) := by
  unfold codeAtom
  simp only [current_bind]
  cases kind : cursor.current.kind
  case lparen => exact codeGroup_stays stays isBar owes kind
  case lbracket => exact contentBlock_stays stays isBar owes kind
  case ident | string | bool | none | auto =>
    exact .done (owes.passes_other isBar kind ⟨rfl, rfl⟩ (by decide))
  case int =>
    simp only [advance_bind]
    cases Decimal.readInteger cursor.current.value with
    | ok value => exact .done (owes.passes_other isBar kind ⟨rfl, rfl⟩ (by decide))
    | error fault => trivial
  case float =>
    simp only [advance_bind]
    cases Decimal.readNumeral? cursor.current.value.toList with
    | some value => exact .done (owes.passes_other isBar kind ⟨rfl, rfl⟩ (by decide))
    | none => trivial
  all_goals exact .recover (owes.report _ _)

theorem attachedBlocksFrom_stays {found : List Node} {last : ByteRange} {fuel : Nat} :
    Stays (mark :: after) (fun _ => True) pending
      (attachedBlocksFrom deeper found last fuel cursor) := by
  induction fuel generalizing found last cursor pending with
  | zero => exact .done owes
  | succ fuel ih =>
      unfold attachedBlocksFrom
      simp only [current_bind, branch_apply]
      split
      · rename_i block
        exact (contentBlock_stays stays isBar owes block.1).bind fun _ owes _ => ih owes
      · exact .done owes

theorem codeCall_stays {callee : Node} (opening : cursor.current.kind = .lparen) :
    Stays (mark :: after) (fun _ => True) pending (codeCall deeper callee cursor) := by
  unfold codeCall
  simp only [advance_bind, remaining_bind]
  refine Stays.group ?_ (codeArgumentsFrom_stays stays isBar
    (owes.opens isBar opening rfl)) fun _ owes within => ?_
  · trivial
  · refine (expect_stays isBar owes within rfl).bind fun _ owes _ => ?_
    simp only [remaining_bind]
    exact (attachedBlocksFrom_stays stays isBar owes).bind fun _ owes _ => .done owes

theorem codeOperand_stays :
    Stays (mark :: after) (fun _ => True) pending (codeOperand deeper cursor) := by
  unfold codeOperand
  simp only [current_bind]
  cases writes : UnaryOp.ofKind? cursor.current.kind with
  | none =>
      exact (codeAtom_stays stays isBar owes).bind fun _ owes _ => codeTail_stays stays isBar owes
  | some op =>
      obtain ⟨plain, notBar⟩ := unary_plain writes
      have passed := owes.passes_other isBar rfl plain notBar
      exact (stays (.expression op.power) isBar passed (.inl trivial) trivial).bind
        fun _ owes _ => .done owes

theorem atom_stays {stops : List TokenKind} (guarded : Guarded (· ∈ stops) pending)
    (goesOn : cursor.endsSequence stops = false) :
    Stays (mark :: after) (· ∈ stops) pending (atom deeper stops cursor) := by
  have notStop := not_mem_of_goesOn goesOn
  -- The token of the atom is no stop, so it can be passed with the brackets it opens or closes.
  obtain ⟨later, passed, still⟩ := exists_pending_next isBar owes guarded notStop
  unfold atom
  simp only [current_bind]
  cases kind : cursor.current.kind
  case ident =>
    simp only [peek_bind, branch_apply]
    split
    · rename_i calls
      rw [cursor.peek_eq_next] at calls
      exact .of_any (mathCall_stays stays isBar owes kind calls.1)
    · exact .after still (.done passed)
  case root =>
    simp only [advance_bind, endsSequence_bind, branch_apply]
    split
    · exact .after still (.done passed)
    · rename_i goesOn
      exact .after still ((stays (.atom stops) isBar passed (still.guarded guarded)
        (Bool.eq_false_iff.mpr goesOn)).bind fun _ owes _ => .done owes)
  case prime => exact .of_any (primes_stays isBar owes).map
  case hash =>
    simp only [advance_bind]
    exact .after still (.of_any ((codeAtom_stays stays isBar passed).bind fun _ owes _ =>
      codeTail_stays stays isBar owes))
  case lparen => exact .of_any (delimited_stays stays isBar owes (by rw [kind]; rfl))
  case lbracket => exact .of_any (delimited_stays stays isBar owes (by rw [kind]; rfl))
  case lbrace => exact .of_any (delimited_stays stays isBar owes (by rw [kind]; rfl))
  case bar =>
    simp only [hasClosingBar_bind, branch_apply]
    split
    · rename_i found
      exact .of_any (bars_stay stays isBar owes kind
        (pending_of_guarded guarded notStop kind) found)
    · exact .after still (.done passed)
  case hat | underscore => exact .after still (.recover (passed.report _ _))
  all_goals exact .after still (.done passed)

theorem body_stays (phrase : Phrase) (guarded : Guarded phrase.StopsAt pending)
    (ready : phrase.Ready cursor) :
    Stays (mark :: after) phrase.StopsAt pending (body deeper phrase cursor) := by
  cases phrase with
  | atom stops => exact atom_stays stays isBar owes guarded ready
  | script _ stops stop => exact attachment_stays stays isBar owes guarded ready
  | denominator num slash stops =>
      exact (attachment_stays stays isBar owes guarded ready).bind fun _ owes still =>
        fractionFrom_stays stays isBar owes (still.guarded guarded)
  | arguments callee =>
      exact (codeCall_stays stays isBar owes ready).bind fun _ owes _ =>
        codeTail_stays stays isBar owes
  | attachedBlock callee =>
      exact (contentBlock_stays stays isBar owes ready).bind fun _ owes _ =>
        codeTail_stays stays isBar owes
  | field target =>
      have passed := owes.passes_other isBar ready ⟨rfl, rfl⟩ (by decide)
      exact (expect_ident_stays isBar passed).bind fun _ owes _ => codeTail_stays stays isBar owes
  | expression power =>
      exact (codeOperand_stays stays isBar owes).bind fun _ owes _ =>
        expressionFrom_stays stays isBar owes
  | operand lhs op slash power =>
      exact (stays (.expression op.rightPower) isBar owes (.inl trivial) trivial).bind
        fun _ owes _ => expressionFrom_stays stays isBar owes

end

theorem phrase_stays (levels : Nat) : StaysBefore (Grammar.phrase levels) := by
  induction levels with
  | zero => exact fun _ _ _ _ _ _ _ _ _ => trivial
  | succ levels ih =>
      intro phrase cursor mark after pending isBar owes guarded ready
      exact body_stays ih isBar owes phrase guarded ready

end Grammar

end EquationMap
