import EquationMap.Proofs.Lexing.Blocks

namespace EquationMap

/-! The contexts of the lexer, told from the tokens alone. After an embedded expression the lexer
may already have left it; which one it is shows in the next token. -/

/-- Where some tokens lead: the contexts that are open, whether the next token is one of code in
any case, and where the last token ends. -/
structure LexPlace where
  contexts : List LexContext
  inCode : Bool
  stop : Nat

namespace LexPlace

def start : LexPlace :=
  ⟨[], false, 0⟩

def mathematics (contexts : List LexContext) (token : Token) : LexPlace :=
  ⟨Lexer.passed token.kind contexts, token.kind = .hash, token.range.stop⟩

/-- The place after a token of code that closes nothing. -/
def code (contexts : List LexContext) (token : Token) : LexPlace :=
  ⟨Lexer.opened token contexts, false, token.range.stop⟩

def pass (place : LexPlace) (token : Token) : LexPlace :=
  if place.inCode then code (.trailing :: place.contexts) token
  else
    match place.contexts with
    | .trailing :: outer =>
        if token.kind = .dot then ⟨outer, true, token.range.stop⟩
        else if (token.kind = .lparen ∨ token.kind = .lbracket) ∧
            place.stop = token.range.start then code (.trailing :: outer) token
        else mathematics outer token
    | .group start :: outer =>
        if token.kind = .rparen then ⟨outer, false, token.range.stop⟩
        else code (.group start :: outer) token
    | contexts => mathematics contexts token

def after (tokens : List Token) : LexPlace :=
  tokens.foldl pass start

theorem after_append (tokens later : List Token) :
    after (tokens ++ later) = later.foldl pass (after tokens) :=
  List.foldl_append

def outside (place : LexPlace) : List LexContext :=
  match place.contexts with
  | .trailing :: outer => outer
  | contexts => contexts

end LexPlace

def LexContext.Formed : List LexContext → Prop
  | [] => True
  | .trailing :: outer => Mathematics outer ∧ Formed outer
  | _ :: outer => Formed outer

namespace LexContext.Formed

variable {contexts : List LexContext} {token : Token}

theorem opened (formed : Formed contexts) : Formed (Lexer.opened token contexts) := by
  unfold Lexer.opened
  split
  · exact formed
  · exact formed
  · exact formed

theorem passed {kind : TokenKind} (formed : Formed contexts) :
    Formed (Lexer.passed kind contexts) := by
  have counted : Formed (Lexer.countBracket kind contexts) := by
    unfold Lexer.countBracket
    split
    · exact formed
    · exact formed
    · exact formed
  unfold Lexer.passed
  split
  · split
    · exact formed
    · exact counted
  · exact counted

end LexContext.Formed

namespace Lexer

/-- Whether a place is that of a lexer, which may have left an embedded expression after which
nothing is attached. -/
structure Tracked (lexer : Lexer) (place : LexPlace) : Prop where
  inCode : place.inCode = false
  stop_le : place.stop ≤ lexer.offset
  formed : LexContext.Formed place.contexts
  contexts : place.contexts = lexer.contexts ∧
      (∀ outer, lexer.contexts = .trailing :: outer → place.stop = lexer.offset) ∨
    place.contexts = .trailing :: lexer.contexts ∧
      (place.stop = lexer.offset → ¬OpensAt lexer.rest)

namespace Tracked

variable {lexer next : Lexer} {place : LexPlace} {read : List Token} {token : Token}

theorem start (text : List Char) : Tracked (.start text) .start where
  inCode := rfl
  stop_le := Nat.le_refl _
  formed := trivial
  contexts := .inl ⟨rfl, fun outer same => by cases same⟩

theorem contexts_of_code (tracked : lexer.Tracked place)
    (code : ¬LexContext.Mathematics lexer.contexts) : place.contexts = lexer.contexts := by
  rcases tracked.contexts with ⟨same, -⟩ | ⟨left, -⟩
  · exact same
  · have formed := tracked.formed
    rw [left] at formed
    exact absurd formed.1 code

theorem outside (tracked : lexer.Tracked place)
    (inside : LexContext.Mathematics lexer.contexts) : place.outside = lexer.contexts := by
  unfold LexPlace.outside
  rcases tracked.contexts with ⟨same, -⟩ | ⟨left, -⟩
  · rw [same]
    split
    · rename_i outer contexts
      rw [contexts] at inside
      cases inside
    · rfl
  · rw [left]

theorem formed_lexer (tracked : lexer.Tracked place) : LexContext.Formed lexer.contexts := by
  have formed := tracked.formed
  rcases tracked.contexts with ⟨same, -⟩ | ⟨left, -⟩
  · rw [← same]
    exact formed
  · rw [left] at formed
    exact formed.2

theorem of_read {contexts : List LexContext} (formed : LexContext.Formed contexts)
    (same : next.contexts = contexts) (stop : token.range.stop = next.offset) :
    next.Tracked ⟨contexts, false, token.range.stop⟩ where
  inCode := rfl
  stop_le := Nat.le_of_eq stop
  formed := formed
  contexts := .inl ⟨same.symm, fun _ _ => stop⟩

theorem pass_math (tracked : lexer.Tracked place)
    (inside : LexContext.Mathematics lexer.contexts) (notDot : token.kind ≠ .dot)
    (after : lexer.offset ≤ token.range.start)
    (adjacent : token.range.start = lexer.offset →
      token.kind = .lparen ∨ token.kind = .lbracket → OpensAt lexer.rest) :
    place.pass token = .mathematics lexer.contexts token := by
  unfold LexPlace.pass
  rw [tracked.inCode, if_neg Bool.false_ne_true]
  rcases tracked.contexts with ⟨same, -⟩ | ⟨left, apart⟩
  · rw [same]
    split
    · rename_i outer contexts
      rw [contexts] at inside
      cases inside
    · rename_i outer contexts
      rw [contexts] at inside
      cases inside
    · rfl
  · have stop_le := tracked.stop_le
    simp only [left]
    rw [if_neg notDot, if_neg]
    rintro ⟨opens, here⟩
    exact apart (by omega) (adjacent (by omega) opens)

theorem reads (tracked : lexer.Tracked place) (reads : lexer.Reads read next) :
    next.Tracked (read.foldl LexPlace.pass place) := by
  obtain ⟨step, -, -, starts, stops, stays⟩ := reads
  have formed := tracked.formed_lexer
  have inCode := tracked.inCode
  generalize outside : next.contexts = after at step
  cases step with
  | @leave outer inside apart =>
      -- The lexer leaves the expression without a token, so the place falls behind it here.
      obtain ⟨rest, offset⟩ := stays rfl
      have same := tracked.contexts_of_code (by rw [inside]; exact id)
      refine ⟨inCode, offset ▸ tracked.stop_le, tracked.formed, .inr ⟨?_, fun _ => ?_⟩⟩
      · rw [List.foldl_nil, same, inside, outside]
      · rw [rest]
        exact apart
  | @attach token outer inside opens adjacent =>
      have same := tracked.contexts_of_code (by rw [inside]; exact id)
      have here : place.stop = token.range.start := by
        rcases tracked.contexts with ⟨-, stop⟩ | ⟨left, -⟩
        · rw [stop outer inside, adjacent]
        · simp [same] at left
      have passed : place.pass token = .code lexer.contexts token := by
        unfold LexPlace.pass
        simp only [inCode, same, inside]
        rw [if_neg Bool.false_ne_true, if_neg, if_pos ⟨opens, here⟩]
        rcases opens with kind | kind <;> simp [kind]
      rw [List.foldl_cons, List.foldl_nil, passed]
      exact .of_read formed.opened outside (stops token rfl)
  | @field dot name outer inside dot_kind name_kind =>
      have same := tracked.contexts_of_code (by rw [inside]; exact id)
      have passed : place.pass dot = ⟨outer, true, dot.range.stop⟩ := by
        unfold LexPlace.pass
        simp only [inCode, same, inside]
        rw [if_neg Bool.false_ne_true, if_pos dot_kind]
      rw [List.foldl_cons, List.foldl_cons, List.foldl_nil, passed]
      rw [inside] at outside formed
      exact .of_read formed.opened outside (stops name rfl)
  | @close token start _ inside kind =>
      have same := tracked.contexts_of_code (by rw [inside]; exact id)
      have passed : place.pass token = ⟨after, false, token.range.stop⟩ := by
        unfold LexPlace.pass
        simp only [inCode, same, inside]
        rw [if_neg Bool.false_ne_true, if_pos kind]
      rw [List.foldl_cons, List.foldl_nil, passed]
      rw [inside] at formed
      exact of_read formed outside (stops token rfl)
  | @code token start outer inside notParen notBracket =>
      have same := tracked.contexts_of_code (by rw [inside]; exact id)
      have passed : place.pass token = .code lexer.contexts token := by
        unfold LexPlace.pass
        simp only [inCode, same, inside]
        rw [if_neg Bool.false_ne_true, if_neg notParen]
      rw [List.foldl_cons, List.foldl_nil, passed]
      exact .of_read formed.opened outside (stops token rfl)
  | @math token inside notHash notDot adjacent =>
      have passed := tracked.pass_math inside notDot (starts token rfl) adjacent
      rw [List.foldl_cons, List.foldl_nil, passed, LexPlace.mathematics, decide_eq_false notHash]
      exact .of_read formed.passed outside (stops token rfl)
  | @embedded hash head inside hash_kind head_kind =>
      have passed : place.pass hash = .mathematics lexer.contexts hash := by
        refine tracked.pass_math inside (by simp [hash_kind]) (starts hash rfl) ?_
        simp [hash_kind]
      have stays : Lexer.passed hash.kind lexer.contexts = lexer.contexts :=
        passed_of_other (by simp [hash_kind]) (by simp [hash_kind]) _
      rw [List.foldl_cons, List.foldl_cons, List.foldl_nil, passed, LexPlace.mathematics, stays,
        decide_eq_true hash_kind]
      have trailing : LexContext.Formed (.trailing :: lexer.contexts) := ⟨inside, formed⟩
      exact .of_read trailing.opened outside (stops head rfl)

end Tracked

theorem Read.math_of_rbracket {lexer : Lexer} {read before after : List Token}
    {contexts : List LexContext} {token : Token} (step : lexer.Read read contexts)
    (split : read = before ++ token :: after) (kind : token.kind = .rbracket) :
    before = [] ∧ read = [token] ∧ LexContext.Mathematics lexer.contexts ∧
      contexts = passed token.kind lexer.contexts := by
  have alone {other : Token} (only : [other] = before ++ token :: after) :
      before = [] ∧ other = token ∧ after = [] := by
    cases before with
    | nil => cases only; exact ⟨rfl, rfl, rfl⟩
    | cons first rest => simp at only
  have among {first second : Token} (pair : [first, second] = before ++ token :: after) :
      token = first ∨ token = second := by
    have member : token ∈ [first, second] := by simp [pair]
    simpa using member
  cases step with
  | leave => simp at split
  | attach inside opens =>
      obtain ⟨-, rfl, -⟩ := alone split
      rw [kind] at opens
      rcases opens with opens | opens <;> cases opens
  | field inside dot_kind name_kind =>
      rcases among split with rfl | rfl
      · rw [kind] at dot_kind
        cases dot_kind
      · exact absurd kind name_kind
  | close inside closing =>
      obtain ⟨-, rfl, -⟩ := alone split
      rw [kind] at closing
      cases closing
  | code inside notParen notBracket =>
      obtain ⟨-, rfl, -⟩ := alone split
      exact absurd kind notBracket
  | math inside =>
      obtain ⟨rfl, rfl, rfl⟩ := alone split
      exact ⟨rfl, rfl, inside, rfl⟩
  | embedded inside hash_kind head_kind =>
      rcases among split with rfl | rfl
      · rw [kind] at hash_kind
        cases hash_kind
      · exact absurd kind head_kind

/-- Whether the lexer closes a block at every bracket, of tokens given in order, before which the
place is a block with no bracket of its own open. -/
def Closes (text : String) (tokens : List Token) : Prop :=
  ∀ before token after, tokens = before ++ token :: after → token.kind = .rbracket →
    ∀ start outer, (LexPlace.after before).outside = .block start 0 :: outer →
      ClosesBlock text start token

variable {text : String}

theorem Closes.reads {lexer next : Lexer} {read : List Token}
    (closes : Closes text lexer.tokens.reverse)
    (tracked : lexer.Tracked (.after lexer.tokens.reverse)) (reached : Reached text lexer)
    (stepped : lexer.step = .going next) (reads : lexer.Reads read next) :
    Closes text next.tokens.reverse := by
  intro before token after split kind start outer block
  rw [reads.tokens, List.reverse_append, List.reverse_reverse] at split
  rcases split_append split.symm with ⟨more, earlier⟩ | ⟨more, before_split, read_split⟩
  · exact closes before token more earlier kind start outer block
  · obtain ⟨rfl, rfl, inside, contexts⟩ := reads.contexts.math_of_rbracket read_split kind
    rw [before_split, List.append_nil, tracked.outside inside] at block
    refine ⟨lexer, next, reached, stepped, ?_, reads.tokens⟩
    rw [contexts, block, passed, if_pos kind]

theorem closes_of_tokenize {tokens : TokenList} (tokenized : tokenize text = .ok tokens) :
    Closes text tokens.tokens := by
  obtain ⟨fuel, last, ran, clean, all⟩ := exists_run_of_tokenize tokenized
  obtain ⟨final, reached, same⟩ := Reached.start.exists_last ran
  rw [all, ← same]
  refine (reached.preserves (fun lexer => lexer.Tracked (.after lexer.tokens.reverse) ∧
    Closes text lexer.tokens.reverse) tokenized ⟨.start _, ?_⟩ ?_).2
  · intro before token after split
    simp [Lexer.start] at split
  · rintro lexer next read reached stepped reads ⟨tracked, closes⟩
    refine ⟨?_, closes.reads tracked reached stepped reads⟩
    rw [reads.tokens, List.reverse_append, List.reverse_reverse, LexPlace.after_append]
    exact tracked.reads reads

end Lexer

end EquationMap
