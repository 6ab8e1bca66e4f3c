import EquationMap.Proofs.Parsing.Written

namespace EquationMap

/-! The bar that pairs up with a bar before it, as looking ahead finds it. It counts brackets but
does not look at their kinds. -/

open Grammar

def openers (tokens : List Token) : Nat :=
  tokens.countP (·.kind.isOpener)

def closers (tokens : List Token) : Nat :=
  tokens.countP (·.kind.isCloser)

section

variable (token : Token) (tokens others : List Token)

@[simp] theorem openers_nil : openers [] = 0 := rfl

@[simp] theorem closers_nil : closers [] = 0 := rfl

@[simp] theorem openers_cons :
    openers (token :: tokens) = openers tokens + if token.kind.isOpener then 1 else 0 :=
  List.countP_cons

@[simp] theorem closers_cons :
    closers (token :: tokens) = closers tokens + if token.kind.isCloser then 1 else 0 :=
  List.countP_cons

@[simp] theorem openers_append : openers (tokens ++ others) = openers tokens + openers others :=
  List.countP_append

@[simp] theorem closers_append : closers (tokens ++ others) = closers tokens + closers others :=
  List.countP_append

end

theorem TokenKind.isCloser_of_closer? {kind closer : TokenKind}
    (closes : kind.closer? = some closer) : closer.isCloser = true := by
  cases kind <;> cases closes <;> rfl

theorem TokenKind.not_isCloser_of_isOpener {kind : TokenKind} (opens : kind.isOpener = true) :
    kind.isCloser = false := by
  cases kind <;> first | rfl | cases opens

theorem TokenKind.not_isOpener_of_isCloser {kind : TokenKind} (closes : kind.isCloser = true) :
    kind.isOpener = false := by
  cases kind <;> first | rfl | cases closes

/-- Whether some tokens close the brackets that are open before them, the innermost first, and
those that open among them, each by one of its kind. -/
def closesAll : List TokenKind → List Token → Bool
  | pending, [] => pending.isEmpty
  | pending, token :: rest =>
      match token.kind.closer? with
      | some closer => closesAll (closer :: pending) rest
      | none =>
          if token.kind.isCloser then
            pending.head? = some token.kind && closesAll pending.tail rest
          else closesAll pending rest

section

variable {pending outer : List TokenKind} {token : Token} {rest others : List Token}

theorem closesAll_opener {closer : TokenKind} (opens : token.kind.closer? = some closer) :
    closesAll pending (token :: rest) = closesAll (closer :: pending) rest := by
  rw [closesAll, opens]

theorem closesAll_closer (closes : token.kind.isCloser = true) :
    closesAll pending (token :: rest) = true ↔
      ∃ outer, pending = token.kind :: outer ∧ closesAll outer rest = true := by
  have opens : token.kind.closer? = none := by
    simpa [TokenKind.isOpener] using TokenKind.not_isOpener_of_isCloser closes
  rw [closesAll, opens]
  cases pending with
  | nil => simp [closes]
  | cons kind outer =>
      simp only [closes, if_true, List.head?_cons, Option.some.injEq, List.tail_cons,
        Bool.and_eq_true, decide_eq_true_eq, List.cons.injEq]
      exact ⟨fun ⟨same, closed⟩ => ⟨outer, ⟨same, rfl⟩, closed⟩,
        fun ⟨_, ⟨same, rest⟩, closed⟩ => ⟨same, rest ▸ closed⟩⟩

theorem closesAll_mark (notOpener : token.kind.isOpener = false)
    (notCloser : token.kind.isCloser = false) :
    closesAll pending (token :: rest) = closesAll pending rest := by
  have opens : token.kind.closer? = none := by
    simpa [TokenKind.isOpener] using notOpener
  rw [closesAll, opens]
  simp only [notCloser, Bool.false_eq_true, if_false]

theorem TokenKind.cases_bracket (kind : TokenKind) :
    (∃ closer, kind.closer? = some closer) ∨ kind.isCloser = true ∨
      kind.isOpener = false ∧ kind.isCloser = false := by
  cases kind <;> simp [closer?, isCloser, isOpener]

theorem closesAll_append {tokens : List Token} (inner : closesAll pending tokens = true)
    (after : closesAll outer others = true) :
    closesAll (pending ++ outer) (tokens ++ others) = true := by
  induction tokens generalizing pending with
  | nil =>
      obtain rfl := List.isEmpty_iff.mp inner
      exact after
  | cons token rest ih =>
      rw [List.cons_append]
      rcases token.kind.cases_bracket with ⟨closer, opens⟩ | closes | ⟨notOpener, notCloser⟩
      · rw [closesAll_opener opens] at inner ⊢
        exact ih inner
      · obtain ⟨outside, rfl, closed⟩ := (closesAll_closer closes).mp inner
        exact (closesAll_closer closes).mpr ⟨outside ++ outer, rfl, ih closed⟩
      · rw [closesAll_mark notOpener notCloser] at inner ⊢
        exact ih inner

end

/-- Whether looking ahead from a place that is some brackets deep finds a bar behind some tokens:
it is the first one outside of all brackets there, and before it no bracket that opened before the
place closes and nothing outside of brackets stops the sequence. -/
structure IsPartner (stops : List TokenKind) (depth : Nat) (between : List Token)
    (mark : Token) : Prop where
  isBar : mark.kind = .bar
  level : closers between = depth + openers between
  inText : ∀ token ∈ between, token.kind ≠ .eof
  inside : ∀ before token later, between ++ [mark] = before ++ token :: later →
    closers before ≤ depth + openers before ∧
      (closers before = depth + openers before → token.kind ∉ stops ∧
        token.kind.isCloser = false ∧ (token.kind = .bar → later = []))

namespace IsPartner

variable {stops : List TokenKind} {depth : Nat} {between : List Token} {mark token : Token}

theorem nil_iff : IsPartner stops depth [] mark ↔
    mark.kind = .bar ∧ depth = 0 ∧ TokenKind.bar ∉ stops := by
  refine ⟨fun partner => ?_, fun ⟨isBar, level, goesOn⟩ => ?_⟩
  · have level : depth = 0 := by simpa using partner.level.symm
    have atMark := (partner.inside [] mark [] rfl).2 (by simp [level])
    exact ⟨partner.isBar, level, partner.isBar ▸ atMark.1⟩
  · refine ⟨isBar, by simp [level], nofun, ?_⟩
    intro before other later split
    cases before with
    | nil =>
        obtain ⟨rfl, rfl⟩ := List.cons.inj split
        exact ⟨Nat.zero_le _, fun _ => ⟨isBar ▸ goesOn, by rw [isBar]; rfl, fun _ => rfl⟩⟩
    | cons first before => simp at split

def depthAfter (depth : Nat) (token : Token) : Nat :=
  depth + (if token.kind.isOpener then 1 else 0) - if token.kind.isCloser then 1 else 0

theorem balance_cons (outside : depth = 0 → token.kind.isCloser = false) (tokens : List Token) :
    (closers (token :: tokens) ≤ depth + openers (token :: tokens) ↔
        closers tokens ≤ depthAfter depth token + openers tokens) ∧
      (closers (token :: tokens) = depth + openers (token :: tokens) ↔
        closers tokens = depthAfter depth token + openers tokens) := by
  simp only [openers_cons, closers_cons, depthAfter]
  cases closes : token.kind.isCloser with
  | false =>
      simp only [Bool.false_eq_true, if_false]
      omega
  | true =>
      have notOpener := TokenKind.not_isOpener_of_isCloser closes
      have positive : depth ≠ 0 := fun level => Bool.noConfusion (closes.symm.trans (outside level))
      simp only [notOpener, Bool.false_eq_true, if_false, if_true]
      omega

theorem cons_iff : IsPartner stops depth (token :: between) mark ↔
    token.kind ≠ .eof ∧
      (depth = 0 → token.kind ∉ stops ∧ token.kind.isCloser = false ∧ token.kind ≠ .bar) ∧
      IsPartner stops (depthAfter depth token) between mark := by
  refine ⟨fun partner => ?_, fun ⟨inText, outside, partner⟩ => ?_⟩
  · have here := partner.inside [] token (between ++ [mark]) rfl
    have outside (level : depth = 0) :
        token.kind ∉ stops ∧ token.kind.isCloser = false ∧ token.kind ≠ .bar := by
      obtain ⟨goesOn, notCloser, last⟩ := here.2 (by simp [level])
      exact ⟨goesOn, notCloser, fun isBar => by simpa using last isBar⟩
    have same := balance_cons fun level => (outside level).2.1
    obtain ⟨inText, later⟩ := List.forall_mem_cons.mp partner.inText
    refine ⟨inText, outside, partner.isBar, (same between).2.mp partner.level, later, ?_⟩
    intro before other rest split
    obtain ⟨below, first⟩ := partner.inside (token :: before) other rest (by simp [split])
    exact ⟨(same before).1.mp below, fun level => first ((same before).2.mpr level)⟩
  · have same := balance_cons fun level => (outside level).2.1
    refine ⟨partner.isBar, (same between).2.mpr partner.level,
      List.forall_mem_cons.mpr ⟨inText, partner.inText⟩, ?_⟩
    intro before other rest split
    cases before with
    | nil =>
        obtain ⟨rfl, -⟩ := List.cons.inj split
        refine ⟨Nat.zero_le _, fun level => ?_⟩
        obtain ⟨goesOn, notCloser, notBar⟩ := outside (by simpa using level.symm)
        exact ⟨goesOn, notCloser, fun isBar => absurd isBar notBar⟩
    | cons first before =>
        obtain ⟨rfl, later⟩ := List.cons.inj split
        obtain ⟨below, first⟩ := partner.inside before other rest later
        exact ⟨(same before).1.mpr below, fun level => first ((same before).2.mp level)⟩

theorem exists_cons_iff {rest : List Token} :
    (∃ between mark after, token :: rest = between ++ mark :: after ∧
        IsPartner stops depth between mark) ↔
      IsPartner stops depth [] token ∨
        ∃ between mark after, rest = between ++ mark :: after ∧
          IsPartner stops depth (token :: between) mark := by
  constructor
  · rintro ⟨_ | ⟨first, between⟩, mark, after, split, partner⟩
    · obtain ⟨rfl, -⟩ := List.cons.inj split
      exact .inl partner
    · obtain ⟨rfl, later⟩ := List.cons.inj split
      exact .inr ⟨between, mark, after, later, partner⟩
  · rintro (partner | ⟨between, mark, after, rfl, partner⟩)
    · exact ⟨[], token, rest, rfl, partner⟩
    · exact ⟨token :: between, mark, after, rfl, partner⟩

end IsPartner

theorem closesBar_cons {stops : List TokenKind} {depth : Nat} {token : Token}
    {rest : List Token} :
    closesBar stops depth (token :: rest) = true ↔
      (token.kind = .bar ∧ depth = 0 ∧ TokenKind.bar ∉ stops) ∨
        token.kind ≠ .eof ∧
          (depth = 0 → token.kind ∉ stops ∧ token.kind.isCloser = false ∧ token.kind ≠ .bar) ∧
          closesBar stops (IsPartner.depthAfter depth token) rest = true := by
  have notBracket (isBar : token.kind = .bar) :
      token.kind.isOpener = false ∧ token.kind.isCloser = false := by
    rw [isBar]
    exact ⟨rfl, rfl⟩
  unfold IsPartner.depthAfter
  rw [closesBar]
  rcases token.kind.cases_bracket with ⟨closer, opens⟩ | closes | ⟨notOpener, notCloser⟩
  · have isOpener : token.kind.isOpener = true := by simp [TokenKind.isOpener, opens]
    have notCloser := TokenKind.not_isCloser_of_isOpener isOpener
    have notBar : token.kind ≠ .bar := fun isBar => by simp [notBracket isBar] at isOpener
    grind
  · have notOpener := TokenKind.not_isOpener_of_isCloser closes
    have notBar : token.kind ≠ .bar := fun isBar => by simp [notBracket isBar] at closes
    grind
  · by_cases isBar : token.kind = .bar
    · rw [isBar]
      cases depth <;> simp [TokenKind.isOpener, TokenKind.isCloser, TokenKind.closer?]
    · grind

theorem closesBar_iff {stops : List TokenKind} {depth : Nat} {tokens : List Token} :
    closesBar stops depth tokens = true ↔
      ∃ between mark after, tokens = between ++ mark :: after ∧
        IsPartner stops depth between mark := by
  induction tokens generalizing depth with
  | nil => simp [closesBar]
  | cons token rest ih =>
      rw [closesBar_cons, ih, IsPartner.exists_cons_iff, IsPartner.nil_iff]
      refine or_congr_right ⟨?_, ?_⟩
      · rintro ⟨inText, outside, between, mark, after, split, partner⟩
        exact ⟨between, mark, after, split, IsPartner.cons_iff.mpr ⟨inText, outside, partner⟩⟩
      · rintro ⟨between, mark, after, split, partner⟩
        obtain ⟨inText, outside, partner⟩ := IsPartner.cons_iff.mp partner
        exact ⟨inText, outside, between, mark, after, split, partner⟩

/-- Where brackets are pending that opened before a place, the bar that looking ahead finds there
comes before they close, and all that opens before it is closed in its kind. -/
theorem IsPartner.exists_later {stops inner outer : List TokenKind}
    {between after ahead tail : List Token} {mark : Token}
    (partner : IsPartner stops inner.length between mark)
    (split : ahead ++ tail = between ++ mark :: after)
    (closed : closesAll (inner ++ outer) ahead = true) (pending : outer ≠ []) :
    ∃ later, ahead = between ++ mark :: later ∧ closesAll inner between = true ∧
      closesAll outer later = true := by
  obtain ⟨token, rest, rfl⟩ : ∃ token rest, ahead = token :: rest := by
    cases ahead with
    | nil => exact absurd (List.append_eq_nil_iff.mp (List.isEmpty_iff.mp closed)).2 pending
    | cons token rest => exact ⟨token, rest, rfl⟩
  -- Along the tokens before the bar. The inner brackets opened among those, the outer ones before.
  induction between generalizing inner token rest with
  | nil =>
      obtain ⟨isBar, none, -⟩ := nil_iff.mp partner
      obtain rfl := List.eq_nil_of_length_eq_zero none
      obtain ⟨rfl, -⟩ := List.cons.inj split
      refine ⟨rest, rfl, rfl, ?_⟩
      rwa [closesAll_mark (by rw [isBar]; rfl) (by rw [isBar]; rfl)] at closed
  | cons first between ih =>
      obtain ⟨-, outside, partner⟩ := cons_iff.mp partner
      obtain ⟨rfl, remaining⟩ := List.cons.inj split
      unfold depthAfter at partner
      have deeper (levels : List TokenKind) (found : IsPartner stops levels.length between mark)
          (closed : closesAll (levels ++ outer) rest = true) :
          ∃ later, rest = between ++ mark :: later ∧ closesAll levels between = true ∧
            closesAll outer later = true := by
        cases rest with
        | nil => exact absurd (List.append_eq_nil_iff.mp (List.isEmpty_iff.mp closed)).2 pending
        | cons next others => exact ih found next others remaining closed
      rcases token.kind.cases_bracket with ⟨closer, opens⟩ | closes | ⟨notOpener, notCloser⟩
      · have isOpener : token.kind.isOpener = true := by simp [TokenKind.isOpener, opens]
        rw [closesAll_opener opens] at closed ⊢
        simp only [isOpener, TokenKind.not_isCloser_of_isOpener isOpener] at partner
        obtain ⟨later, rfl, inside⟩ := deeper (closer :: inner) partner closed
        exact ⟨later, rfl, inside⟩
      · cases inner with
        | nil => simp [(outside rfl).2.1] at closes
        | cons kind inner =>
            obtain ⟨_, same, closed⟩ := (closesAll_closer closes).mp closed
            obtain ⟨rfl, rfl⟩ := List.cons.inj same
            simp only [TokenKind.not_isOpener_of_isCloser closes, closes] at partner
            obtain ⟨later, rfl, inside, outside⟩ := deeper inner partner closed
            exact ⟨later, rfl, (closesAll_closer closes).mpr ⟨inner, rfl, inside⟩, outside⟩
      · rw [closesAll_mark notOpener notCloser] at closed ⊢
        simp only [notOpener, notCloser] at partner
        obtain ⟨later, rfl, inside⟩ := deeper inner partner closed
        exact ⟨later, rfl, inside⟩

/-- Between two places, given by the tokens that follow them, every bracket that opens is closed by
one of its kind. A bracket that closes may stand alone. -/
inductive Enclosed : List Token → List Token → Prop
  | nothing {rest : List Token} : Enclosed rest rest
  | append {tokens middle rest : List Token} (left : Enclosed tokens middle)
      (right : Enclosed middle rest) : Enclosed tokens rest
  | mark {token : Token} {rest : List Token} (notOpener : token.kind.isOpener = false) :
      Enclosed (token :: rest) rest
  | brackets {opening closing : Token} {middle rest : List Token}
      (kinds : opening.kind.closer? = some closing.kind)
      (inside : Enclosed middle (closing :: rest)) : Enclosed (opening :: middle) rest

/-- What is enclosed closes as many brackets as it opens or more, and if it closes as many, then
each by one of its kind. -/
theorem Enclosed.closes {tokens rest : List Token} (enclosed : Enclosed tokens rest) :
    ∃ passed, tokens = passed ++ rest ∧ openers passed ≤ closers passed ∧
      (closers passed ≤ openers passed → ∀ pending others,
        closesAll pending (passed ++ others) = closesAll pending others) := by
  induction enclosed with
  | nothing => exact ⟨[], rfl, Nat.le_refl _, fun _ _ _ => rfl⟩
  | append _ _ left_ih right_ih =>
      obtain ⟨first, rfl, first_le, first_closes⟩ := left_ih
      obtain ⟨second, rfl, second_le, second_closes⟩ := right_ih
      refine ⟨first ++ second, by simp, ?_, fun level pending others => ?_⟩
      · simp only [openers_append, closers_append]
        omega
      · simp only [openers_append, closers_append] at level
        rw [List.append_assoc, first_closes (by omega), second_closes (by omega)]
  | @mark token rest notOpener =>
      refine ⟨[token], rfl, by simp [notOpener], fun level pending others => ?_⟩
      exact closesAll_mark notOpener (by simpa [notOpener] using level)
  | @brackets opening closing middle rest kinds _ ih =>
      obtain ⟨inner, rfl, inner_le, inner_closes⟩ := ih
      have isCloser := TokenKind.isCloser_of_closer? kinds
      have opens : opening.kind.isOpener = true := by simp [TokenKind.isOpener, kinds]
      have notCloser := TokenKind.not_isCloser_of_isOpener opens
      have notOpener := TokenKind.not_isOpener_of_isCloser isCloser
      refine ⟨opening :: (inner ++ [closing]), by simp, ?_, fun level pending others => ?_⟩
      · simp [opens, notCloser, notOpener, isCloser, inner_le]
      · simp only [openers_cons, closers_cons, openers_append, closers_append, opens, notCloser,
          notOpener, isCloser, openers_nil, closers_nil] at level
        rw [List.cons_append, closesAll_opener kinds, List.append_assoc,
          inner_closes (by simpa using level), Bool.eq_iff_iff]
        exact (closesAll_closer isCloser).trans (by simp)

namespace Enclosed

variable {tokens middle rest : List Token} {token : Token}

theorem after (enclosed : Enclosed middle rest) (notOpener : token.kind.isOpener = false) :
    Enclosed (token :: middle) rest :=
  (mark notOpener).append enclosed

theorem before (enclosed : Enclosed tokens (token :: rest))
    (notOpener : token.kind.isOpener = false) : Enclosed tokens rest :=
  enclosed.append (mark notOpener)

end Enclosed

theorem TokenKind.not_isOpener_of_binary {kind : TokenKind} {op : BinaryOp}
    (writes : BinaryOp.ofKind? kind = some op) : kind.isOpener = false := by
  cases kind <;> first | rfl | cases writes

theorem TokenKind.not_isOpener_of_unary {kind : TokenKind} {op : UnaryOp}
    (writes : UnaryOp.ofKind? kind = some op) : kind.isOpener = false := by
  cases kind <;> first | rfl | cases writes

theorem Leaf.notOpener {role : Role} {token : Token} {node : Node} (leaf : Leaf role token node) :
    token.kind.isOpener = false := by
  cases leaf with
  | text plain => cases kind : token.kind <;> rw [kind] at plain <;> first | rfl | cases plain
  | _ => simp_all [TokenKind.isOpener, TokenKind.closer?]

theorem Marks.enclosed {primes : Option Primes} {tokens rest : List Token}
    (marks : Marks primes tokens rest) : Enclosed tokens rest := by
  induction marks with
  | absent => exact .nothing
  | first kind => exact .mark (by rw [kind]; rfl)
  | more _ kind ih => exact ih.before (by rw [kind]; rfl)

theorem Written.enclosed {writing : Writing} {tokens rest : List Token}
    (written : Written writing tokens rest) : Enclosed tokens rest := by
  -- On what is written. A bracket that closes may stand alone, so a mark only has to open none.
  induction written with
  | leaf leaf => exact .mark leaf.notOpener
  | primes marks => exact marks.enclosed
  | attach _ marks _ _ base scripts => exact (base.append marks.enclosed).append scripts
  | frac _ kind _ num denom => exact (num.before (by rw [kind]; rfl)).append denom
  | delimited kinds _ ih =>
      rcases kinds with kinds | ⟨opening, closing⟩
      · exact .brackets kinds ih
      · exact (ih.before (by rw [closing]; rfl)).after (by rw [opening]; rfl)
  | mathCall name opening _ closing ih =>
      exact (Enclosed.brackets (by rw [opening, closing]; rfl) ih).after (by rw [name]; rfl)
  | root kind _ ih | embedded kind _ _ ih | spread kind _ ih =>
      exact ih.after (by rw [kind]; rfl)
  | @labelled name colon value middle rest named kind _ ih =>
      have names : name.kind = .text ∨ name.kind = .ident := by
        simp only [namesArgument, Bool.and_eq_true, Bool.or_eq_true, decide_eq_true_eq] at named
        exact named.1.1
      refine (ih.after (by rw [kind]; rfl)).after ?_
      rcases names with kind | kind <;> rw [kind] <;> rfl
  | named name colon _ ih => exact (ih.after (by rw [colon]; rfl)).after (by rw [name]; rfl)
  | parenthesized opening closing _ ih | array opening closing _ ih | dict opening closing _ ih
  | contentBlock opening closing _ ih => exact .brackets (by rw [opening, closing]; rfl) ih
  | emptyDict opening colon closing =>
      exact .brackets (by rw [opening, closing]; rfl) (.mark (by rw [colon]; rfl))
  | call _ opening closing _ _ _ _ callee args blocks =>
      exact (callee.append (.brackets (by rw [opening, closing]; rfl) args)).append blocks
  | field _ dot name ih => exact (ih.before (by rw [dot]; rfl)).before (by rw [name]; rfl)
  | binary _ writes _ lhs rhs =>
      exact (lhs.before (TokenKind.not_isOpener_of_binary writes)).append rhs
  | unary writes _ ih => exact ih.after (TokenKind.not_isOpener_of_unary writes)
  | keyed _ kind _ key value => exact (key.before (by rw [kind]; rfl)).append value
  | blockCall _ _ _ left right | more _ _ left right | argument _ _ left right =>
      exact left.append right
  | comma _ kind ih | rowComma _ kind ih | endRow _ kind ih =>
      exact ih.before (by rw [kind]; rfl)
  | script _ kind _ _ before written =>
      exact (before.before (by rw [kind]; cases ‹ScriptSide› <;> rfl)).append written
  | single _ ih | sequence _ _ ih | positional _ ih | blockOperand _ ih | operand _ ih
  | item _ ih => exact ih
  | none | noRows | noScripts => exact .nothing

end EquationMap
