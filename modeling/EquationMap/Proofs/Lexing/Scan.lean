import EquationMap.Proofs.Lexing.Spelling
import EquationMap.Syntax.Lexer

namespace EquationMap

/-- A text made of the sources of tokens, latest first, with blanks before, between and after
them. -/
inductive Scanned : List Char → List Token → Prop
  | start : Scanned [] []
  | blanks {done gap : List Char} {tokens : List Token} (scanned : Scanned done tokens)
      (blank : ∀ c ∈ gap, Text.isBlank c = true) : Scanned (done ++ gap) tokens
  | token {done : List Char} {tokens : List Token} {kind : TokenKind} {value : String}
      {source : List Char} (scanned : Scanned done tokens) (nonempty : source ≠ [])
      (spells : Spells kind value.toList source) (inText : kind ≠ .eof) :
      Scanned (done ++ source)
        (⟨kind, value, .ofLength (Text.byteLength done) (Text.byteLength source)⟩ :: tokens)

namespace Lexer

/-- Where a lexer stands in a text, and that it has scanned all before unless it found a
fault. -/
def Follows (text : List Char) (lexer : Lexer) : Prop :=
  ∃ done, text = done ++ lexer.rest ∧ lexer.offset = Text.byteLength done ∧
    (lexer.errors = [] → Scanned done lexer.tokens)

variable {text : List Char} {lexer : Lexer}

theorem follows_start (text : List Char) : Follows text (.start text) :=
  ⟨[], rfl, rfl, fun _ => .start⟩

theorem Follows.withContexts (follows : Follows text lexer) (contexts : List LexContext) :
    Follows text { lexer with contexts } :=
  follows

theorem Follows.enter (follows : Follows text lexer) (context : LexContext) :
    Follows text (lexer.enter context) :=
  follows

theorem Follows.leave (follows : Follows text lexer) : Follows text lexer.leave :=
  follows

private theorem rest_of_isPrefix {done rest piece : List Char} (isPrefix : piece <+: rest) :
    done ++ rest = (done ++ piece) ++ rest.drop piece.length := by
  obtain ⟨after, rfl⟩ := isPrefix
  simp

theorem Follows.skipBlanks (follows : Follows text lexer) : Follows text lexer.skipBlanks := by
  obtain ⟨done, split, offset, scanned⟩ := follows
  refine ⟨done ++ lexer.rest.takeWhile Text.isBlank, ?_, ?_, ?_⟩
  · rw [split]
    exact rest_of_isPrefix (List.takeWhile_prefix _)
  · simp [Lexer.skipBlanks, skip, offset]
  · intro clean
    exact .blanks (scanned clean) fun c member =>
      List.all_eq_true.mp List.all_takeWhile c member

theorem Follows.emit (follows : Follows text lexer) {lexeme : Lexeme}
    (heads : lexeme.Heads lexer.rest) : Follows text (lexer.emit lexeme) := by
  obtain ⟨done, split, offset, scanned⟩ := follows
  refine ⟨done ++ lexeme.source, ?_, ?_, ?_⟩
  · rw [split]
    exact rest_of_isPrefix heads.isPrefix
  · simp [Lexer.emit, skip, offset]
  · intro clean
    have extended := Scanned.token (scanned clean) heads.nonempty heads.spells heads.inText
    rw [← offset] at extended
    exact extended

theorem Follows.emitChar (follows : Follows text lexer) (kind : TokenKind)
    (verbatim : kind.isVerbatim = true) {c : Char} {rest : List Char}
    (head : lexer.rest = c :: rest) : Follows text (lexer.emitChar kind c) :=
  follows.emit (head ▸ Lexeme.plain_char_heads verbatim c rest)

theorem Follows.emitMath (follows : Follows text lexer) {lexeme : Lexeme}
    (heads : lexeme.Heads lexer.rest) : Follows text (lexer.emitMath lexeme) :=
  (follows.emit heads).withContexts _

theorem Follows.report (done : List Char) (split : text = done ++ lexer.rest)
    (offset : lexer.offset = Text.byteLength done) (fault : SyntaxFault) (start : Nat) :
    Follows text (lexer.report fault start) :=
  ⟨done, split, offset, fun clean => absurd clean (List.cons_ne_nil _ _)⟩

theorem Follows.reportHere (follows : Follows text lexer) (fault : SyntaxFault) (start : Nat) :
    Follows text (lexer.report fault start) := by
  obtain ⟨done, split, offset, -⟩ := follows
  exact .report done split offset fault start

theorem Follows.readString (follows : Follows text lexer) {rest : List Char}
    (head : lexer.rest = '"' :: rest) : Follows text (lexer.readString rest) := by
  unfold Lexer.readString
  dsimp only
  split
  · rename_i closed
    exact follows.emit (head ▸ Lexeme.literal_heads closed)
  · obtain ⟨done, split, offset, -⟩ := follows
    refine .report (done ++ '"' :: (Lexeme.stringTail rest).source) ?_ ?_ _ _
    · rw [split]
      refine rest_of_isPrefix ?_
      rw [head]
      exact (List.prefix_cons_inj _).mpr (Lexeme.stringTail_isPrefix rest)
    · simp [Lexer.emit, skip, offset]

theorem Follows.skipStray (follows : Follows text lexer) {c : Char} {rest : List Char}
    (head : lexer.rest = c :: rest) (fault : SyntaxFault) (start : Nat) :
    Follows text ((lexer.skip [c]).report fault start) := by
  obtain ⟨done, split, offset, -⟩ := follows
  refine .report (done ++ [c]) ?_ ?_ fault start
  · rw [split]
    refine rest_of_isPrefix ?_
    rw [head]
    exact ⟨rest, rfl⟩
  · simp [skip, offset]

/-- The invariant of what a step leads to; a lexer finishes at the end of the text only. -/
def Progress.Follows (text : List Char) : Progress → Prop
  | .going next => next.Follows text
  | .finished last => last.Follows text ∧ last.rest = []
  | .abandoned last => last.Follows text

theorem Follows.openWith (follows : Follows text lexer) {kind : TokenKind}
    (verbatim : kind.isVerbatim = true) {c : Char} {rest : List Char}
    (head : lexer.rest = c :: rest) (context : LexContext) :
    (lexer.openWith kind c context).Follows text := by
  have inner := (follows.emitChar kind verbatim head).enter context
  unfold Lexer.openWith
  dsimp only
  split
  · exact inner.reportHere _ _
  · exact inner

theorem Follows.openGroup (follows : Follows text lexer) {rest : List Char}
    (head : lexer.rest = '(' :: rest) : lexer.openGroup.Follows text :=
  follows.openWith rfl head _

theorem Follows.openBlock (follows : Follows text lexer) {rest : List Char}
    (head : lexer.rest = '[' :: rest) : lexer.openBlock.Follows text :=
  follows.openWith rfl head _

theorem Follows.embedded (follows : Follows text lexer) : lexer.embedded.Follows text := by
  have inside := follows.enter .trailing
  have missing : (Progress.going
      (lexer.report .missingEmbedded (lexer.offset - 1))).Follows text :=
    follows.reportHere _ _
  unfold Lexer.embedded
  dsimp only
  split
  · exact missing
  · rename_i c rest head
    split
    · rename_i starts
      exact inside.emit (head ▸ Lexeme.codeWord_heads starts rest)
    · split
      · rename_i digit
        exact inside.emit (head ▸ Lexeme.codeNumber_heads digit rest)
      · split
        · rename_i isQuote
          subst isQuote
          exact inside.readString head
        · split
          · rename_i isParen
            subst isParen
            exact inside.openGroup head
          · split
            · rename_i isBracket
              subst isBracket
              exact inside.openBlock head
            · exact missing

theorem Follows.mathToken (follows : Follows text lexer) {c : Char} {rest : List Char}
    (head : lexer.rest = c :: rest) : (lexer.mathToken c rest).Follows text := by
  unfold Lexer.mathToken
  split
  · rename_i isHash
    subst isHash
    exact (follows.emitChar .hash rfl head).embedded
  · split
    · rename_i isQuote
      subst isQuote
      exact follows.readString head
    · split
      · rename_i isBackslash
        subst isBackslash
        exact follows.emit (head ▸ Lexeme.backslash_heads rest)
      · split
        · rename_i digit
          refine follows.emit (head ▸ Lexeme.plain_heads rfl ?_ ?_)
          · exact Lexeme.numberSource_ne_nil digit rest
          · exact Lexeme.numberSource_isPrefix _
        · split
          · rename_i letter
            exact follows.emit (head ▸ Lexeme.word_heads letter rest)
          · exact follows.emitMath (head ▸ Lexeme.mark_heads c rest)

theorem Follows.codeToken (follows : Follows text lexer) {c : Char} {rest : List Char}
    (head : lexer.rest = c :: rest) : (lexer.codeToken c rest).Follows text := by
  unfold Lexer.codeToken
  split
  · rename_i isClosing
    subst isClosing
    exact (follows.emitChar .rparen rfl head).leave
  · split
    · rename_i isParen
      subst isParen
      exact follows.openGroup head
    · split
      · rename_i isBracket
        subst isBracket
        exact follows.openBlock head
      · split
        · rename_i starts
          exact follows.emit (head ▸ Lexeme.codeWord_heads starts rest)
        · split
          · rename_i digit
            exact follows.emit (head ▸ Lexeme.codeNumber_heads digit rest)
          · split
            · rename_i isQuote
              subst isQuote
              exact follows.readString head
            · split
              · rename_i lexeme found
                exact follows.emit (Lexeme.codeMark?_heads found)
              · exact follows.skipStray head _ _

theorem Follows.trailingToken (follows : Follows text lexer) :
    lexer.trailingToken.Follows text := by
  unfold Lexer.trailingToken
  split
  · rename_i head
    exact follows.openGroup head
  · rename_i head
    exact follows.openBlock head
  · rename_i c rest head
    split
    · rename_i starts
      refine (follows.emitChar .dot rfl head).emit ?_
      have next : (lexer.emitChar .dot '.').rest = c :: rest := by
        simp [Lexer.emitChar, Lexer.emit, skip, Lexeme.plain, head]
      rw [next]
      exact Lexeme.codeWord_heads starts rest
    · exact follows.leave
  · exact follows.leave

theorem Follows.step (follows : Follows text lexer) : lexer.step.Follows text := by
  have here := follows.skipBlanks
  unfold Lexer.step
  dsimp only
  split
  · split
    · rename_i atEnd
      exact ⟨here, atEnd⟩
    · rename_i head
      exact here.mathToken head
  · exact follows.trailingToken
  · split
    · exact (here.reportHere _ _).leave
    · rename_i head
      exact here.codeToken head
  · split
    · exact (here.reportHere _ _).leave
    · rename_i head
      split
      · exact (here.emitChar .rbracket rfl head).leave
      · exact here.mathToken head

theorem Follows.run (follows : Follows text lexer) (fuel : Nat) :
    (Lexer.run fuel lexer).Follows text := by
  induction fuel generalizing lexer with
  | zero => exact follows
  | succ fuel ih =>
      have stepped := follows.step
      unfold Lexer.run
      split
      · rename_i next same
        rw [same] at stepped
        exact ih stepped
      · rename_i last same
        rw [same] at stepped
        exact stepped
      · rename_i last same
        rw [same] at stepped
        exact stepped

end Lexer

/-- A text that is divided into tokens without a fault is made of their sources and of blanks,
and the last token lies at its end. -/
theorem tokenize_scanned {text : String} {tokens : TokenList}
    (tokenized : tokenize text = .ok tokens) :
    Scanned text.toList tokens.tokens.reverse ∧
      tokens.last = ⟨.eof, "", .empty (Text.byteLength text.toList)⟩ := by
  have followed := (Lexer.follows_start text.toList).run (2 * text.toList.length + 1)
  unfold tokenize at tokenized
  dsimp only at tokenized
  split at tokenized
  · rename_i last finished
    rw [finished] at followed
    obtain ⟨⟨done, split, offset, scanned⟩, atEnd⟩ := followed
    have whole : done = text.toList := by
      rw [split, atEnd, List.append_nil]
    subst whole
    unfold Lexer.result at tokenized
    split at tokenized
    · rename_i clean
      cases tokenized
      refine ⟨?_, by rw [offset]⟩
      simpa using scanned (List.isEmpty_iff.mp clean)
    · cases tokenized
  · cases tokenized
  · cases tokenized

end EquationMap
