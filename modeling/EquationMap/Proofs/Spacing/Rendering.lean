import EquationMap.Proofs.Parsing.Progress
import EquationMap.Proofs.Spacing.Code
import EquationMap.Proofs.Spacing.Evaluation
import EquationMap.Rendering

namespace EquationMap

/-! What is between the tokens of a text, and where they are, decides nothing but which brackets
directly follow the tokens before them. Texts that agree in this are drawn alike, or refused with
the same message. -/

/-- Whether two lists have tokens of the same kinds and values, and a parenthesis or a bracket
directly follows the token before it in both lists or in neither. -/
structure Token.SameUpToSpacing (tokens tokens' : List Token) : Prop where
  same : List.Forall₂ (fun token token' => token.kind = token'.kind ∧ token.value = token'.value)
    tokens tokens'
  attached : ∀ (index : Nat) {before bracket before' bracket' : Token},
    tokens[index]? = some before → tokens[index + 1]? = some bracket →
    tokens'[index]? = some before' → tokens'[index + 1]? = some bracket' →
    bracket.kind = .lparen ∨ bracket.kind = .lbracket →
      (before.range.stop = bracket.range.start ↔ before'.range.stop = bracket'.range.start)

/-- Whether two answers agree: both texts have results that are related, or both are refused at
one stage with one message, or both fail for one other reason. -/
inductive AnsweredAlike (Both : α → α → Prop) : Except Failure α → Except Failure α → Prop
  | answered {value value' : α} (both : Both value value') :
      AnsweredAlike Both (.ok value) (.ok value')
  | refused {refusal refusal' : Refusal} (stage : refusal.stage = refusal'.stage)
      (message : refusal.message = refusal'.message) :
      AnsweredAlike Both (.error (.refused refusal)) (.error (.refused refusal'))
  | broken (breakdown : Breakdown) :
      AnsweredAlike Both (.error (.broken breakdown)) (.error (.broken breakdown))

namespace AnsweredAlike

variable {α β : Type} {Both : α → α → Prop}

theorem bind {More : β → β → Prop} {first first' : Except Failure α}
    {next next' : α → Except Failure β} (head : AnsweredAlike Both first first')
    (tail : ∀ value value', Both value value' → AnsweredAlike More (next value) (next' value')) :
    AnsweredAlike More (first >>= next) (first' >>= next') := by
  cases head with
  | answered both => exact tail _ _ both
  | refused stage message => exact .refused stage message
  | broken breakdown => exact .broken breakdown

theorem refuse {stage : Stage} {diagnostics diagnostics' : List Diagnostic}
    (same : diagnostics.map Diagnostic.message = diagnostics'.map Diagnostic.message) :
    AnsweredAlike Both (.error (.refuse stage diagnostics))
      (.error (.refuse stage diagnostics')) :=
  .refused rfl (congrArg stage.message same)

end AnsweredAlike

/-- Whether tokens stand in order, and those that attach are not empty. -/
structure Token.Solid (tokens : List Token) : Prop where
  ordered : tokens.Pairwise fun earlier later => earlier.range.stop ≤ later.range.start
  nonempty : ∀ token ∈ tokens, token.kind.Attaches → token.range.start < token.range.stop

namespace Token.Solid

variable {token next : Token} {rest : List Token}

theorem tail (solid : Solid (token :: rest)) : Solid rest :=
  ⟨solid.ordered.tail, fun token member => solid.nonempty token (.tail _ member)⟩

theorem head_le (solid : Solid (token :: next :: rest)) :
    token.range.start ≤ next.range.start :=
  Nat.le_trans token.range.ordered (List.rel_of_pairwise_cons solid.ordered List.mem_cons_self)

end Token.Solid

theorem TokenList.InOrder.solid {tokens : TokenList} {text : List Char}
    (inOrder : tokens.InOrder text) : Token.Solid tokens.toList where
  ordered := inOrder.ordered
  nonempty := by
    intro token member attaches
    rcases List.mem_append.mp member with inText | isLast
    · exact inOrder.nonempty token inText
    · rw [List.mem_singleton.mp isLast, inOrder.last] at attaches
      rcases attaches with paren | bracket
      · cases paren
      · cases bracket

namespace Token.SameUpToSpacing

variable {token token' : Token} {rest rest' : List Token}

theorem head (same : SameUpToSpacing (token :: rest) (token' :: rest'))
    (solid : Solid (token :: rest)) (solid' : Solid (token' :: rest')) : token.Alike token' := by
  obtain ⟨⟨kind, value⟩, -⟩ := List.forall₂_cons.mp same.same
  refine ⟨kind, value, solid.nonempty token List.mem_cons_self, fun attaches => ?_⟩
  rw [kind] at attaches
  exact solid'.nonempty token' List.mem_cons_self attaches

theorem tail (same : SameUpToSpacing (token :: rest) (token' :: rest')) :
    SameUpToSpacing rest rest' where
  same := (List.forall₂_cons.mp same.same).2
  attached index _ _ _ _ before bracket before' bracket' :=
    same.attached (index + 1) before bracket before' bracket'

theorem listsAlike {tokens tokens' : List Token} (same : SameUpToSpacing tokens tokens')
    (solid : Solid tokens) (solid' : Solid tokens') (nonempty : tokens ≠ []) :
    ListsAlike tokens tokens' := by
  induction tokens generalizing tokens' with
  | nil => exact absurd rfl nonempty
  | cons token rest induction =>
      obtain ⟨token', rest', -, -, rfl⟩ := List.forall₂_cons_left_iff.mp same.same
      cases rest with
      | nil =>
          cases List.forall₂_nil_left_iff.mp same.tail.same
          exact .last (same.head solid solid')
      | cons next rest =>
          obtain ⟨next', rest', -, -, rfl⟩ := List.forall₂_cons_left_iff.mp same.tail.same
          refine .cons (same.head solid solid') solid.head_le solid'.head_le ?_ ?_
          · exact same.attached 0 rfl rfl rfl rfl
          · exact induction same.tail solid.tail solid'.tail (List.cons_ne_nil _ _)

end Token.SameUpToSpacing

theorem Formula.alike_of_ofTokens {tokens tokens' : TokenList} {text text' : List Char}
    (inOrder : tokens.InOrder text) (inOrder' : tokens'.InOrder text')
    (alike : Token.ListsAlike tokens.toList tokens'.toList) :
    AnsweredAlike (fun formula formula' => formula.bare = formula'.bare)
      ((Formula.ofTokens tokens).mapError Failure.ofSyntax)
      ((Formula.ofTokens tokens').mapError Failure.ofSyntax) := by
  have start : (Cursor.ofTokens tokens).Alike 0 0 (Cursor.ofTokens tokens') := by
    refine ⟨?_, inOrder.ordered_ofTokens, inOrder'.ordered_ofTokens, Nat.zero_le _,
      Nat.zero_le _, ?_⟩
    · rw [Cursor.tokens_ofTokens, Cursor.tokens_ofTokens]
      exact alike
    · unfold Cursor.ofTokens
      split <;> split <;> rfl
  have agrees : Reading.Agrees (List.map Node.bare)
      (Grammar.sequence (Grammar.phrase maxNesting) [])
      (Grammar.sequence (Grammar.phrase maxNesting) []) :=
    Grammar.sequence_agrees (Grammar.phrase_alike maxNesting)
  have agree := agrees.ends start
  -- The faults lie elsewhere in the other text, but their messages are the same.
  have refused {last last' : Cursor} (later : last.Alike 0 0 last') :
      AnsweredAlike (fun formula formula' : Formula => formula.bare = formula'.bare)
        (.error (.ofSyntax (.errors last.errors.reverse)))
        (.error (.ofSyntax (.errors last'.errors.reverse))) := by
    refine .refuse ?_
    have faults := congrArg (List.map SyntaxFault.message) later.faults
    simpa [Function.comp_def, SyntaxError.diagnostic, Diagnostic.error] using faults
  unfold Formula.ofTokens
  generalize Grammar.sequence _ _ (Cursor.ofTokens tokens) = result at agree
  generalize Grammar.sequence _ _ (Cursor.ofTokens tokens') = result' at agree
  cases agree with
  | @completed exprs exprs' last last' later same =>
      have clean : last.errors.isEmpty = last'.errors.isEmpty := by
        simpa using congrArg List.isEmpty later.faults
      cases empty : last.errors.isEmpty with
      | true =>
          simp only [empty, ← clean, if_true]
          refine .answered ?_
          simp [Formula.bare, same, Place.bare]
      | false =>
          simp only [empty, ← clean]
          exact refused later
  | @interrupted reason last last' later =>
      cases reason with
      | recover => exact refused later
      | tooDeep => exact refused later
      | number fault => exact .broken _

theorem Source.alike_of_ofText {text text' : String} {tokens tokens' : TokenList}
    (tokenized : tokenize text = .ok tokens) (tokenized' : tokenize text' = .ok tokens')
    (alike : Token.ListsAlike tokens.toList tokens'.toList) :
    AnsweredAlike (fun source source' => source.formula.bare = source'.formula.bare)
      (Source.ofText text) (Source.ofText text') := by
  have stages {text : String} {tokens : TokenList} (tokenized : tokenize text = .ok tokens) :
      Source.ofText text = (Formula.ofTokens tokens).mapError Failure.ofSyntax >>= fun formula =>
        ((formula.number Source.mainFile .full).mapError fun _ => .refuse .numberize []).map
          fun numbered => ⟨text, numbered.1, numbered.2⟩ := by
    unfold Source.ofText Formula.ofText
    rw [tokenized]
    dsimp only
    cases Formula.ofTokens tokens with
    | error failure => rfl
    | ok formula =>
        dsimp only [Except.mapError, bind, Except.bind]
        cases formula.number Source.mainFile .full <;> rfl
  rw [stages tokenized, stages tokenized']
  refine (Formula.alike_of_ofTokens (TokenList.inOrder_of_tokenize tokenized)
    (TokenList.inOrder_of_tokenize tokenized') alike).bind fun formula formula' same => ?_
  have numbered := formula.number_bare Source.mainFile .full
  rw [same, formula'.number_bare] at numbered
  generalize formula.number Source.mainFile .full = made at numbered ⊢
  generalize formula'.number Source.mainFile .full = made' at numbered ⊢
  cases made with
  | error _ =>
      cases made' with
      | error _ => exact .refuse rfl
      | ok _ => cases numbered
  | ok _ =>
      cases made' with
      | error _ => cases numbered
      | ok _ => exact .answered (Except.ok.inj numbered).symm

theorem Source.alike_of_evaluate {source source' : Source}
    (same : source.formula.bare = source'.formula.bare) (scope : Scope) :
    AnsweredAlike Eq (source.evaluate scope) (source'.evaluate scope) := by
  unfold Source.evaluate
  rw [← Formula.evaluate_bare, ← source'.formula.evaluate_bare, same]
  cases source'.formula.bare.evaluate scope with
  | ok content => exact .answered rfl
  | error failure =>
      cases failure with
      | errors errors =>
          refine .refuse ?_
          rw [List.map_map, List.map_map]
          rfl
      | number fault => exact .broken _

theorem Source.alike_of_layout {α : Type} [Length α] {source source' : Source}
    (same : source.formula.bare = source'.formula.bare) (content : Content) (styles : Styles α)
    (region : Region α) :
    AnsweredAlike Eq (source.layout content styles region)
      (source'.layout content styles region) := by
  have sameSpan : source.formula.place.span = source'.formula.place.span :=
    congrArg (fun formula => formula.place.span) same
  unfold Source.layout
  rw [sameSpan]
  cases Layout.block content source'.formula.place.span styles region with
  | ok frame => exact .answered rfl
  | error failure =>
      cases failure with
      | errors errors =>
          refine .refuse ?_
          rw [List.map_map, List.map_map]
          rfl
      | stopped stop => exact .broken _

theorem typeset_alike {α : Type} [Length α] {text text' : String} {tokens tokens' : TokenList}
    (tokenized : tokenize text = .ok tokens) (tokenized' : tokenize text' = .ok tokens')
    (alike : Token.ListsAlike tokens.toList tokens'.toList) :
    AnsweredAlike (fun formula formula' : Typeset α => formula.frame = formula'.frame)
      (typeset text) (typeset text') := by
  refine (Source.alike_of_ofText tokenized tokenized' alike).bind fun source source' same => ?_
  refine (Source.alike_of_evaluate same globalScope).bind fun content _ sameContent => ?_
  cases sameContent
  refine (Source.alike_of_layout same content Styles.standard {}).bind fun _ _ sameFrame => ?_
  exact .answered sameFrame

/-- Texts whose tokens differ in nothing but what is between them, and in which the same brackets
directly follow the tokens before them, are drawn alike or fail alike. -/
theorem rendered_alike {text text' : String} {tokens tokens' : TokenList}
    (tokenized : tokenize text = .ok tokens) (tokenized' : tokenize text' = .ok tokens')
    (same : Token.SameUpToSpacing tokens.toList tokens'.toList) :
    AnsweredAlike (fun rendering rendering' => rendering.svg = rendering'.svg) (render text)
      (render text') := by
  have solid := (TokenList.inOrder_of_tokenize tokenized).solid
  have solid' := (TokenList.inOrder_of_tokenize tokenized').solid
  have alike := same.listsAlike solid solid' (List.append_ne_nil_of_right_ne_nil _ (by simp))
  refine (typeset_alike tokenized tokenized' alike).bind fun formula formula' sameFrame => ?_
  rw [sameFrame]
  cases formula'.frame.toSvg with
  | ok svg => exact .answered rfl
  | error fault => exact .broken _

/-- A call with blanks around its argument and one without; the parenthesis directly follows the
name in both texts. -/
theorem rendered_alike_of_spaced_call :
    ∃ tokens tokens', tokenize "sqrt(x)/2" = .ok tokens ∧
      tokenize "sqrt( x )  / 2 " = .ok tokens' ∧ tokens ≠ tokens' ∧
      Token.SameUpToSpacing tokens.toList tokens'.toList ∧
      AnsweredAlike (fun rendering rendering' => rendering.svg = rendering'.svg)
        (render "sqrt(x)/2") (render "sqrt( x )  / 2 ") := by
  have tokenized : ∃ tokens tokens', tokenize "sqrt(x)/2" = .ok tokens ∧
      tokenize "sqrt( x )  / 2 " = .ok tokens' ∧ tokens ≠ tokens' ∧
      Token.SameUpToSpacing tokens.toList tokens'.toList := by
    refine ⟨_, _, rfl, rfl, by decide, ⟨by decide, ?_⟩⟩
    intro index before bracket before' bracket' isBefore isBracket isBefore' isBracket' attaches
    rcases index with _ | _ | _ | _ | _ | _ | index <;> cases isBracket
    · cases isBefore
      cases isBefore'
      cases isBracket'
      decide
    all_goals exact absurd attaches (by decide)
  obtain ⟨tokens, tokens', tokenized, tokenized', differ, same⟩ := tokenized
  exact ⟨tokens, tokens', tokenized, tokenized', differ, same,
    rendered_alike tokenized tokenized' same⟩

end EquationMap
