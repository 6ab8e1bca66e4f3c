import EquationMap.Proofs.Lexing.Coverage

namespace EquationMap

/-! The contexts in which a lexer reads each token. Brackets of mathematics are counted in the
block that is read; in embedded code an opening mark enters a context of its own. -/

def LexContext.Mathematics : List LexContext → Prop
  | [] | .block _ _ :: _ => True
  | _ => False

def OpensAt (text : List Char) : Prop :=
  ∃ rest, text = '(' :: rest ∨ text = '[' :: rest

namespace Lexer

def opened (token : Token) (contexts : List LexContext) : List LexContext :=
  match token.kind with
  | .lparen => .group token.range.start :: contexts
  | .lbracket => .block token.range.start 0 :: contexts
  | _ => contexts

def passed (kind : TokenKind) : List LexContext → List LexContext
  | .block start 0 :: outer =>
      if kind = .rbracket then outer else countBracket kind (.block start 0 :: outer)
  | contexts => countBracket kind contexts

theorem passed_of_other {kind : TokenKind} (notOpening : kind ≠ .lbracket)
    (notClosing : kind ≠ .rbracket) (contexts : List LexContext) :
    passed kind contexts = contexts := by
  have counted : countBracket kind contexts = contexts := by
    unfold countBracket
    split <;> first | rfl | contradiction
  unfold passed
  split
  · rw [if_neg notClosing, counted]
  · exact counted

/-- The tokens that a step reads, and the contexts that it leads to. -/
inductive Read (lexer : Lexer) : List Token → List LexContext → Prop
  | leave {outer : List LexContext} (inside : lexer.contexts = .trailing :: outer)
      (apart : ¬OpensAt lexer.rest) : Read lexer [] outer
  | attach {token : Token} {outer : List LexContext}
      (inside : lexer.contexts = .trailing :: outer)
      (opens : token.kind = .lparen ∨ token.kind = .lbracket)
      (adjacent : token.range.start = lexer.offset) :
      Read lexer [token] (opened token lexer.contexts)
  | field {dot name : Token} {outer : List LexContext}
      (inside : lexer.contexts = .trailing :: outer) (dot_kind : dot.kind = .dot)
      (name_kind : name.kind ≠ .rbracket) : Read lexer [dot, name] (opened name lexer.contexts)
  | close {token : Token} {start : Nat} {outer : List LexContext}
      (inside : lexer.contexts = .group start :: outer) (kind : token.kind = .rparen) :
      Read lexer [token] outer
  | code {token : Token} {start : Nat} {outer : List LexContext}
      (inside : lexer.contexts = .group start :: outer) (notParen : token.kind ≠ .rparen)
      (notBracket : token.kind ≠ .rbracket) : Read lexer [token] (opened token lexer.contexts)
  | math {token : Token} (inside : LexContext.Mathematics lexer.contexts)
      (notHash : token.kind ≠ .hash) (notDot : token.kind ≠ .dot)
      (adjacent : token.range.start = lexer.offset →
        token.kind = .lparen ∨ token.kind = .lbracket → OpensAt lexer.rest) :
      Read lexer [token] (passed token.kind lexer.contexts)
  | embedded {hash head : Token} (inside : LexContext.Mathematics lexer.contexts)
      (hash_kind : hash.kind = .hash) (head_kind : head.kind ≠ .rbracket) :
      Read lexer [hash, head] (opened head (.trailing :: lexer.contexts))

/-- Whether a lexer is another one after a token that starts at once, contexts apart. -/
structure Emitted (lexer : Lexer) (token : Token) (next : Lexer) : Prop where
  tokens : next.tokens = token :: lexer.tokens
  start : token.range.start = lexer.offset
  stop : token.range.stop = next.offset
  errors : next.errors = lexer.errors

/-- Whether a lexer is another one after a step that finds no fault and reads some tokens. -/
structure Reads (lexer : Lexer) (read : List Token) (next : Lexer) : Prop where
  contexts : lexer.Read read next.contexts
  tokens : next.tokens = read.reverse ++ lexer.tokens
  errors : next.errors = lexer.errors
  start : ∀ token ∈ read.head?, lexer.offset ≤ token.range.start
  stop : ∀ token ∈ read.getLast?, token.range.stop = next.offset
  stays : read = [] → next.rest = lexer.rest ∧ next.offset = lexer.offset

variable {lexer next : Lexer} {token : Token}

theorem emitted_emit (lexer : Lexer) (lexeme : Lexeme) :
    ∃ token, token.kind = lexeme.kind ∧ lexer.Emitted token (lexer.emit lexeme) :=
  ⟨_, rfl, rfl, rfl, rfl, rfl⟩

theorem Reads.one {here : Lexer} (emitted : here.Emitted token next)
    (read : lexer.Read [token] next.contexts) (tokens : here.tokens = lexer.tokens)
    (errors : here.errors = lexer.errors) (le : lexer.offset ≤ here.offset) :
    lexer.Reads [token] next where
  contexts := read
  tokens := by rw [emitted.tokens, tokens]; rfl
  errors := by rw [emitted.errors, errors]
  start := by
    rintro _ ⟨⟩
    rw [emitted.start]
    exact le
  stop := by
    rintro _ ⟨⟩
    exact emitted.stop
  stays := fun none => by cases none

theorem Reads.two {here middle : Lexer} {second : Token} (emitted : here.Emitted token middle)
    (later : middle.Emitted second next) (read : lexer.Read [token, second] next.contexts)
    (tokens : here.tokens = lexer.tokens) (errors : here.errors = lexer.errors)
    (le : lexer.offset ≤ here.offset) : lexer.Reads [token, second] next where
  contexts := read
  tokens := by rw [later.tokens, emitted.tokens, tokens]; rfl
  errors := by rw [later.errors, emitted.errors, errors]
  start := by
    rintro _ ⟨⟩
    rw [emitted.start]
    exact le
  stop := by
    rintro _ ⟨⟩
    exact later.stop
  stays := fun none => by cases none

end Lexer

namespace Lexeme

theorem mathMarks_kinds : ∀ entry ∈ Token.mathMarks, entry.2 ≠ .hash ∧ entry.2 ≠ .dot ∧
    (entry.2 = .lparen ∨ entry.2 = .lbracket → entry.1 = '(' ∨ entry.1 = '[') ∧
    (entry.2 = .rbracket → entry.1 = ']') := by
  decide

theorem mark_kind (c : Char) (rest : List Char) :
    (mark c rest).kind ≠ .hash ∧ (mark c rest).kind ≠ .dot ∧
    ((mark c rest).kind = .lparen ∨ (mark c rest).kind = .lbracket → c = '(' ∨ c = '[') ∧
    ((mark c rest).kind = .rbracket → c = ']') := by
  unfold mark
  split
  · simp [plain]
  · split
    · simp [plain]
    · cases found : Token.mathMarks.lookup c with
      | none => simp [plain]
      | some kind => exact mathMarks_kinds _ (lookup_mem found)

theorem keywords_kinds : ∀ entry ∈ Token.keywords,
    entry.2 ≠ .lparen ∧ entry.2 ≠ .lbracket ∧ entry.2 ≠ .rparen ∧ entry.2 ≠ .rbracket := by
  decide

theorem codeWord_kind (text : List Char) :
    (codeWord text).kind ≠ .lparen ∧ (codeWord text).kind ≠ .lbracket ∧
    (codeWord text).kind ≠ .rparen ∧ (codeWord text).kind ≠ .rbracket := by
  unfold codeWord
  cases found : Token.keywords.lookup (String.ofList (text.takeWhile Text.isWordChar)) with
  | none => simp [found]
  | some kind =>
      simp only [found, Option.getD_some]
      exact keywords_kinds _ (lookup_mem found)

theorem codeNumber_kind (text : List Char) :
    (codeNumber text).kind = .int ∨ (codeNumber text).kind = .float := by
  unfold codeNumber plain
  cases (numberSource text).2 <;> simp

theorem codeMarks_kinds : ∀ entry ∈ Token.codeMarks,
    entry.2 ≠ .lparen ∧ entry.2 ≠ .lbracket ∧ entry.2 ≠ .rparen ∧ entry.2 ≠ .rbracket := by
  decide

theorem codeMark?_kind {text : List Char} {lexeme : Lexeme}
    (found : codeMark? text = some lexeme) :
    lexeme.kind ≠ .lparen ∧ lexeme.kind ≠ .lbracket ∧ lexeme.kind ≠ .rparen ∧
    lexeme.kind ≠ .rbracket := by
  obtain ⟨⟨mark, kind⟩, leads, rfl⟩ := Option.map_eq_some_iff.mp found
  exact codeMarks_kinds _ (leadingMark?_isPrefix leads).2

theorem backslash_kind (rest : List Char) :
    (backslash rest).kind = .linebreak ∨ (backslash rest).kind = .escape := by
  cases rest with
  | nil => exact .inl rfl
  | cons c rest =>
      unfold backslash
      dsimp only
      split
      · exact .inl rfl
      · exact .inr rfl

theorem word_kind (text : List Char) : (word text).kind = .text ∨ (word text).kind = .ident := by
  unfold word
  dsimp only
  split
  · exact .inl rfl
  · exact .inr rfl

end Lexeme

namespace Lexer

variable {lexer here next : Lexer}

theorem emitted_readString {rest : List Char} (clean : (lexer.readString rest).errors = []) :
    ∃ token, token.kind = .string ∧ lexer.Emitted token (lexer.readString rest) ∧
      (lexer.readString rest).contexts = lexer.contexts := by
  unfold readString at clean ⊢
  dsimp only at clean ⊢
  split
  · exact ⟨_, rfl, ⟨rfl, rfl, rfl, rfl⟩, rfl⟩
  · rename_i notClosed
    rw [if_neg notClosed] at clean
    cases clean

theorem emitted_openWith {kind : TokenKind} {c : Char} {context : LexContext}
    (stepped : lexer.openWith kind c context = .going next) :
    ∃ token, token.kind = kind ∧ lexer.Emitted token next ∧
      next.contexts = context :: lexer.contexts := by
  unfold openWith at stepped
  dsimp only at stepped
  split at stepped
  · cases stepped
  · cases stepped
    exact ⟨_, rfl, ⟨rfl, rfl, rfl, rfl⟩, rfl⟩

theorem emitted_openGroup (stepped : lexer.openGroup = .going next) :
    ∃ token, token.kind = .lparen ∧ lexer.Emitted token next ∧
      next.contexts = opened token lexer.contexts := by
  obtain ⟨token, kind, emitted, contexts⟩ := emitted_openWith stepped
  refine ⟨token, kind, emitted, ?_⟩
  rw [contexts, opened, kind, emitted.start]

theorem emitted_openBlock (stepped : lexer.openBlock = .going next) :
    ∃ token, token.kind = .lbracket ∧ lexer.Emitted token next ∧
      next.contexts = opened token lexer.contexts := by
  obtain ⟨token, kind, emitted, contexts⟩ := emitted_openWith stepped
  refine ⟨token, kind, emitted, ?_⟩
  rw [contexts, opened, kind, emitted.start]

theorem opened_of_other {token : Token} (notParen : token.kind ≠ .lparen)
    (notBracket : token.kind ≠ .lbracket) (contexts : List LexContext) :
    opened token contexts = contexts := by
  unfold opened
  split <;> first | rfl | contradiction

theorem emitted_codeWord (lexer : Lexer) (text : List Char) :
    ∃ token, token.kind ≠ .rparen ∧ token.kind ≠ .rbracket ∧
      lexer.Emitted token (lexer.emit (.codeWord text)) ∧
      (lexer.emit (.codeWord text)).contexts = opened token lexer.contexts := by
  obtain ⟨notParen, notBracket, notClosing, notEnding⟩ := Lexeme.codeWord_kind text
  obtain ⟨token, kind, emitted⟩ := emitted_emit lexer (.codeWord text)
  rw [← kind] at notParen notBracket notClosing notEnding
  exact ⟨token, notClosing, notEnding, emitted,
    (opened_of_other notParen notBracket lexer.contexts).symm⟩

theorem emitted_codeNumber (lexer : Lexer) (text : List Char) :
    ∃ token, token.kind ≠ .rparen ∧ token.kind ≠ .rbracket ∧
      lexer.Emitted token (lexer.emit (.codeNumber text)) ∧
      (lexer.emit (.codeNumber text)).contexts = opened token lexer.contexts := by
  obtain ⟨token, kind, emitted⟩ := emitted_emit lexer (.codeNumber text)
  refine ⟨token, ?_, ?_, emitted, (opened_of_other ?_ ?_ lexer.contexts).symm⟩ <;>
    rcases Lexeme.codeNumber_kind text with isInt | isFloat <;> simp [*]

theorem emitted_embedded (stepped : lexer.embedded = .going next) (clean : next.errors = []) :
    ∃ token, token.kind ≠ .rbracket ∧ lexer.Emitted token next ∧
      next.contexts = opened token (.trailing :: lexer.contexts) := by
  have inside {token : Token} (emitted : (lexer.enter .trailing).Emitted token next) :
      lexer.Emitted token next :=
    ⟨emitted.tokens, emitted.start, emitted.stop, emitted.errors⟩
  unfold embedded at stepped
  dsimp only at stepped
  split at stepped
  · cases stepped
    cases clean
  · rename_i c rest head
    split at stepped
    · cases stepped
      obtain ⟨token, -, notEnding, emitted, contexts⟩ :=
        emitted_codeWord (lexer.enter .trailing) lexer.rest
      exact ⟨token, notEnding, inside emitted, contexts⟩
    · split at stepped
      · cases stepped
        obtain ⟨token, -, notEnding, emitted, contexts⟩ :=
          emitted_codeNumber (lexer.enter .trailing) lexer.rest
        exact ⟨token, notEnding, inside emitted, contexts⟩
      · split at stepped
        · cases stepped
          obtain ⟨token, kind, emitted, contexts⟩ := emitted_readString clean
          refine ⟨token, by simp [kind], inside emitted, ?_⟩
          rw [contexts, opened_of_other (by simp [kind]) (by simp [kind])]
          rfl
        · split at stepped
          · obtain ⟨token, kind, emitted, contexts⟩ := emitted_openGroup stepped
            exact ⟨token, by simp [kind], inside emitted, contexts⟩
          · split at stepped
            · obtain ⟨token, kind, emitted, contexts⟩ := emitted_openBlock stepped
              exact ⟨token, by simp [kind], inside emitted, contexts⟩
            · cases stepped
              cases clean

theorem skipBlanks_offset (lexer : Lexer) : lexer.offset ≤ lexer.skipBlanks.offset :=
  Nat.le_add_right _ _

/-- Blanks take up room, so a lexer that stays where it is skips none. -/
theorem rest_of_skipBlanks (same : lexer.skipBlanks.offset = lexer.offset) :
    lexer.skipBlanks.rest = lexer.rest := by
  have none : lexer.rest.takeWhile Text.isBlank = [] := by
    refine Decidable.byContradiction fun some => ?_
    have positive := Text.byteLength_pos some
    change lexer.offset + Text.byteLength (lexer.rest.takeWhile Text.isBlank) = lexer.offset
      at same
    omega
  change lexer.rest.drop (lexer.rest.takeWhile Text.isBlank).length = lexer.rest
  rw [none]
  rfl

theorem mathToken_reads {c : Char} {rest : List Char}
    (inside : LexContext.Mathematics lexer.contexts) (head : lexer.skipBlanks.rest = c :: rest)
    (unclosed : ∀ start outer, lexer.contexts = .block start 0 :: outer → c ≠ ']')
    (stepped : lexer.skipBlanks.mathToken c rest = .going next) (clean : next.errors = []) :
    ∃ read, lexer.Reads read next := by
  have plain {token : Token} {kind : TokenKind} (isKind : token.kind = kind)
      (emitted : lexer.skipBlanks.Emitted token next)
      (contexts : next.contexts = lexer.contexts) (notHash : kind ≠ .hash)
      (notDot : kind ≠ .dot) (notParen : kind ≠ .lparen) (notOpening : kind ≠ .lbracket)
      (notClosing : kind ≠ .rbracket) : ∃ read, lexer.Reads read next := by
    subst isKind
    refine ⟨[token], .one emitted ?_ rfl rfl (skipBlanks_offset lexer)⟩
    rw [contexts, ← passed_of_other notOpening notClosing lexer.contexts]
    exact .math inside notHash notDot fun _ opens => by simp_all
  -- In the order of the lexer: an embedded expression, a string, a backslash, a number, a word and
  -- a mark. Only a mark can be a bracket.
  unfold mathToken at stepped
  split at stepped
  · obtain ⟨second, kind, emitted, contexts⟩ := emitted_embedded stepped clean
    obtain ⟨hash, hash_kind, hash_emitted⟩ :=
      emitted_emit lexer.skipBlanks (.plain .hash [c])
    refine ⟨[hash, second], .two hash_emitted emitted ?_ rfl rfl (skipBlanks_offset lexer)⟩
    rw [contexts]
    exact .embedded inside hash_kind kind
  · split at stepped
    · cases stepped
      obtain ⟨token, kind, emitted, contexts⟩ := emitted_readString clean
      refine plain kind emitted contexts ?_ ?_ ?_ ?_ ?_ <;> simp
    · split at stepped
      · cases stepped
        obtain ⟨token, kind, emitted⟩ := emitted_emit lexer.skipBlanks (.backslash rest)
        rcases Lexeme.backslash_kind rest with isBreak | isEscape
        · refine plain (kind.trans isBreak) emitted rfl ?_ ?_ ?_ ?_ ?_ <;> simp
        · refine plain (kind.trans isEscape) emitted rfl ?_ ?_ ?_ ?_ ?_ <;> simp
      · split at stepped
        · cases stepped
          obtain ⟨token, kind, emitted⟩ := emitted_emit lexer.skipBlanks
            (.plain .text (Lexeme.numberSource lexer.skipBlanks.rest).1)
          refine plain kind emitted rfl ?_ ?_ ?_ ?_ ?_ <;> simp [Lexeme.plain]
        · split at stepped
          · cases stepped
            obtain ⟨token, kind, emitted⟩ :=
              emitted_emit lexer.skipBlanks (.word lexer.skipBlanks.rest)
            rcases Lexeme.word_kind lexer.skipBlanks.rest with isText | isIdent
            · refine plain (kind.trans isText) emitted rfl ?_ ?_ ?_ ?_ ?_ <;> simp
            · refine plain (kind.trans isIdent) emitted rfl ?_ ?_ ?_ ?_ ?_ <;> simp
          · cases stepped
            obtain ⟨notHash, notDot, opening, closing⟩ := Lexeme.mark_kind c rest
            obtain ⟨token, kind, emitted⟩ := emitted_emit lexer.skipBlanks (.mark c rest)
            rw [← kind] at notHash notDot opening closing
            have marked : lexer.skipBlanks.Emitted token
                (lexer.skipBlanks.emitMath (.mark c rest)) :=
              ⟨emitted.tokens, emitted.start, emitted.stop, emitted.errors⟩
            refine ⟨[token], .one marked ?_ rfl rfl (skipBlanks_offset lexer)⟩
            have contexts : (lexer.skipBlanks.emitMath (.mark c rest)).contexts =
                passed token.kind lexer.contexts := by
              change countBracket (Lexeme.mark c rest).kind lexer.contexts = _
              rw [← kind]
              unfold passed
              split
              · rename_i start outer same
                have notEnding : token.kind ≠ .rbracket :=
                  fun isEnding => unclosed start outer same (closing isEnding)
                rw [if_neg notEnding, same]
              · rfl
            rw [contexts]
            refine .math inside notHash notDot fun adjacent opens => ⟨rest, ?_⟩
            rw [emitted.start] at adjacent
            rw [← rest_of_skipBlanks adjacent, head]
            rcases opening opens with rfl | rfl
            · exact .inl rfl
            · exact .inr rfl

theorem codeToken_reads {c : Char} {rest : List Char} {start : Nat} {outer : List LexContext}
    (inside : lexer.contexts = .group start :: outer)
    (stepped : lexer.skipBlanks.codeToken c rest = .going next) (clean : next.errors = []) :
    ∃ read, lexer.Reads read next := by
  have code {token : Token} (emitted : lexer.skipBlanks.Emitted token next)
      (contexts : next.contexts = opened token lexer.contexts)
      (notParen : token.kind ≠ .rparen) (notBracket : token.kind ≠ .rbracket) :
      ∃ read, lexer.Reads read next := by
    refine ⟨[token], .one emitted ?_ rfl rfl (skipBlanks_offset lexer)⟩
    rw [contexts]
    exact .code inside notParen notBracket
  -- In the order of the lexer: the end of the group, a group, a block, a word, a number, a string
  -- and an operator.
  unfold codeToken at stepped
  split at stepped
  · cases stepped
    obtain ⟨token, kind, emitted⟩ := emitted_emit lexer.skipBlanks (.plain .rparen [c])
    have left : lexer.skipBlanks.Emitted token (lexer.skipBlanks.emitChar .rparen c).leave :=
      ⟨emitted.tokens, emitted.start, emitted.stop, emitted.errors⟩
    refine ⟨[token], .one left ?_ rfl rfl (skipBlanks_offset lexer)⟩
    have contexts : (lexer.skipBlanks.emitChar .rparen c).leave.contexts = outer := by
      change lexer.contexts.tail = outer
      rw [inside]
      rfl
    rw [contexts]
    exact .close inside kind
  · split at stepped
    · obtain ⟨token, kind, emitted, contexts⟩ := emitted_openGroup stepped
      exact code emitted contexts (by simp [kind]) (by simp [kind])
    · split at stepped
      · obtain ⟨token, kind, emitted, contexts⟩ := emitted_openBlock stepped
        exact code emitted contexts (by simp [kind]) (by simp [kind])
      · split at stepped
        · cases stepped
          obtain ⟨token, notParen, notBracket, emitted, contexts⟩ :=
            emitted_codeWord lexer.skipBlanks lexer.skipBlanks.rest
          exact code emitted contexts notParen notBracket
        · split at stepped
          · cases stepped
            obtain ⟨token, notParen, notBracket, emitted, contexts⟩ :=
              emitted_codeNumber lexer.skipBlanks lexer.skipBlanks.rest
            exact code emitted contexts notParen notBracket
          · split at stepped
            · cases stepped
              obtain ⟨token, kind, emitted, contexts⟩ := emitted_readString clean
              refine code emitted ?_ (by simp [kind]) (by simp [kind])
              rw [contexts, opened_of_other (by simp [kind]) (by simp [kind])]
              rfl
            · split at stepped
              · rename_i lexeme found
                cases stepped
                obtain ⟨notOpening, notBlock, notParen, notBracket⟩ :=
                  Lexeme.codeMark?_kind found
                obtain ⟨token, kind, emitted⟩ := emitted_emit lexer.skipBlanks lexeme
                rw [← kind] at notOpening notBlock notParen notBracket
                exact code emitted (opened_of_other notOpening notBlock _).symm notParen
                  notBracket
              · cases stepped
                cases clean

theorem trailingToken_reads {outer : List LexContext}
    (inside : lexer.contexts = .trailing :: outer)
    (stepped : lexer.trailingToken = .going next) : ∃ read, lexer.Reads read next := by
  have left (apart : ¬OpensAt lexer.rest) : lexer.Reads [] lexer.leave := by
    refine ⟨?_, rfl, rfl, by simp, by simp, fun _ => ⟨rfl, rfl⟩⟩
    have contexts : lexer.leave.contexts = outer := by
      change lexer.contexts.tail = outer
      rw [inside]
      rfl
    rw [contexts]
    exact .leave inside apart
  have attached {token : Token} (emitted : lexer.Emitted token next)
      (contexts : next.contexts = opened token lexer.contexts)
      (opens : token.kind = .lparen ∨ token.kind = .lbracket) :
      ∃ read, lexer.Reads read next := by
    refine ⟨[token], .one emitted ?_ rfl rfl (Nat.le_refl _)⟩
    rw [contexts]
    exact .attach inside opens emitted.start
  unfold trailingToken at stepped
  split at stepped
  · obtain ⟨token, kind, emitted, contexts⟩ := emitted_openGroup stepped
    exact attached emitted contexts (.inl kind)
  · obtain ⟨token, kind, emitted, contexts⟩ := emitted_openBlock stepped
    exact attached emitted contexts (.inr kind)
  · rename_i c rest head
    split at stepped
    · cases stepped
      obtain ⟨dot, dot_kind, dot_emitted⟩ := emitted_emit lexer (.plain .dot ['.'])
      obtain ⟨name, -, notBracket, emitted, contexts⟩ :=
        emitted_codeWord (lexer.emitChar .dot '.') (c :: rest)
      refine ⟨[dot, name], .two dot_emitted emitted ?_ rfl rfl (Nat.le_refl _)⟩
      rw [contexts]
      exact .field inside dot_kind notBracket
    · cases stepped
      refine ⟨[], left ?_⟩
      rintro ⟨rest, opens | opens⟩ <;> rw [head] at opens <;> cases opens
  · rename_i notGroup notBlock notField
    cases stepped
    exact ⟨[], left fun ⟨rest, opens⟩ => opens.elim (notGroup rest) (notBlock rest)⟩

theorem step_reads (stepped : lexer.step = .going next) (clean : next.errors = []) :
    ∃ read, lexer.Reads read next := by
  -- By the innermost context: none, an expression, a group or a block.
  unfold step at stepped
  dsimp only at stepped
  split at stepped
  · rename_i inside
    split at stepped
    · cases stepped
    · rename_i head
      refine mathToken_reads (by rw [inside]; trivial) head ?_ stepped clean
      intro start outer same
      rw [inside] at same
      cases same
  · rename_i inside
    exact trailingToken_reads inside stepped
  · rename_i inside
    split at stepped
    · cases stepped
      cases clean
    · exact codeToken_reads inside stepped clean
  · rename_i start brackets outer inside
    have mathematics : LexContext.Mathematics lexer.contexts := by
      rw [inside]
      trivial
    split at stepped
    · cases stepped
      cases clean
    · rename_i c rest head
      split at stepped
      · rename_i closes
        obtain ⟨rfl, rfl⟩ := closes
        cases stepped
        obtain ⟨token, kind, emitted⟩ := emitted_emit lexer.skipBlanks (.plain .rbracket [']'])
        have left : lexer.skipBlanks.Emitted token
            (lexer.skipBlanks.emitChar .rbracket ']').leave :=
          ⟨emitted.tokens, emitted.start, emitted.stop, emitted.errors⟩
        change token.kind = .rbracket at kind
        refine ⟨[token], .one left ?_ rfl rfl (skipBlanks_offset lexer)⟩
        have contexts : (lexer.skipBlanks.emitChar .rbracket ']').leave.contexts =
            passed token.kind lexer.contexts := by
          change lexer.contexts.tail = _
          rw [inside, passed, if_pos kind]
          rfl
        rw [contexts]
        exact .math mathematics (by simp [kind]) (by simp [kind]) fun _ opens => by simp_all
      · rename_i goesOn
        refine mathToken_reads mathematics head ?_ stepped clean
        intro opened outer same isClosing
        rw [inside] at same
        cases same
        exact goesOn ⟨rfl, isClosing⟩

end Lexer

end EquationMap
