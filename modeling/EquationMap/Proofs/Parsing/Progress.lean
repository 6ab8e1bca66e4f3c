import EquationMap.Proofs.Lexing.Coverage
import EquationMap.Proofs.Lexing.Progress
import EquationMap.Proofs.Parsing.Soundness
import EquationMap.Proofs.Parsing.Turns

namespace EquationMap

/-! Reading comes to an end, whatever the text and whatever the order of the tokens: each turn of
a loop passes a token or a piece of the text or leaves the loop, and unless it is abandoned,
reading stops at the end. -/

open Grammar Reading

/-- Whether a list of tokens ends with its only mark of the end of the text. -/
def TokenList.EndsOnce (tokens : TokenList) : Prop :=
  tokens.last.kind = .eof ∧ ∀ token ∈ tokens.tokens, token.kind ≠ .eof

instance (tokens : TokenList) : Decidable tokens.EndsOnce :=
  inferInstanceAs (Decidable (_ ∧ _))

namespace Grammar

/-- Whether the loops of the grammar, begun at a place with so many levels left, are read turn by
turn, where each turn that another one follows passes a token. -/
structure LoopsAdvance (levels : Nat) (cursor : Cursor) : Prop where
  sequence : ∀ stops, Looped (sequenceTurn (phrase levels) stops) [] cursor
    (Grammar.sequence (phrase levels) stops cursor)
  primes : ∀ count range, Looped primesTurn (count, range) cursor
    (primesFrom count range (cursor.rest.length + 1) cursor)
  fractions : ∀ stops num, Looped (fractionTurn stops) (levels, num) cursor
    (fractionFrom (phrase levels) stops num cursor)
  arguments : Looped (argumentTurn (phrase levels)) {} cursor
    (argumentsFrom (phrase levels) {} (cursor.rest.length + 1) cursor)
  items : Looped (itemTurn (phrase levels)) ([], false) cursor
    (codeItemsFrom (phrase levels) [] false (cursor.rest.length + 1) cursor)
  codeArguments : Looped (codeArgumentTurn (phrase levels)) [] cursor
    (codeArgumentsFrom (phrase levels) [] (cursor.rest.length + 1) cursor)
  attachedBlocks : ∀ range, Looped (attachedBlockTurn (phrase levels)) ([], range) cursor
    (attachedBlocksFrom (phrase levels) [] range (cursor.rest.length + 1) cursor)
  tail : ∀ expr, Looped tailTurn (levels, expr) cursor (codeTail (phrase levels) expr cursor)
  operators : ∀ power lhs, Looped (operatorTurn power) (levels, lhs) cursor
    (expressionFrom (phrase levels) power lhs cursor)

theorem loopsAdvance {cursor : Cursor} (closed : cursor.Closed) (levels : Nat) :
    LoopsAdvance levels cursor where
  sequence := sequence_looped (phrase_passesAtoms levels) closed
  primes := primesFrom_looped closed
  fractions := fractions_looped closed levels
  arguments := arguments_looped (phrase_passesAtoms levels) closed
  items := items_looped closed
  codeArguments := codeArguments_looped closed
  attachedBlocks := attachedBlocks_looped closed
  tail := tail_looped closed levels
  operators := operators_looped closed levels

end Grammar

theorem TokenList.InOrder.ordered_ofTokens {text : List Char} {tokens : TokenList}
    (inOrder : tokens.InOrder text) : (Cursor.ofTokens tokens).Ordered where
  ordered := by
    rw [Cursor.tokens_ofTokens]
    exact inOrder.ordered
  last := by
    rw [Cursor.tokens_ofTokens, TokenList.toList, List.getLast?_concat]
    rintro _ ⟨⟩
    rw [inOrder.last]
    exact Nat.le_refl _

/-- Wherever a loop of the grammar is begun among tokens that end with their only mark of the end,
each of its turns passes a token, leaves the loop or breaks it off. The whole of the tokens is read
up to the mark, unless reading is abandoned for nesting, at a number without a value or, where the
ranges of the tokens do not follow each other, at a range that ends before it starts. Wherever the
lexer stands in a text, it has moved on in it by the next turn of a loop, and it comes to the end
of the text unless it is abandoned for nesting. -/
theorem reading_ends (tokens : TokenList) (ends : tokens.EndsOnce) (text : String) :
    (∀ cursor, (Cursor.ofTokens tokens).Reaches cursor → ∀ levels, LoopsAdvance levels cursor) ∧
    (match Grammar.sequence (phrase maxNesting) [] (Cursor.ofTokens tokens) with
      | .ok _ last => last.current = tokens.last ∧ last.rest = []
      | .error .recover _ => False
      | .error .tooDeep last => ∃ range, last.errors.head? = some ⟨.parsedTooDeep, range⟩
      | .error (.number fault) _ => (∃ token ∈ tokens.toList, token.Valueless fault) ∨
          ¬(Cursor.ofTokens tokens).Ordered ∧
            ∃ start stop, fault = .invalidRange start stop ∧ stop < start) ∧
    (∀ taken more here later, Lexer.run taken (.start text.toList) = .going here →
      Lexer.run (more + 1) here = .going later →
        here.contexts.length ≤ later.contexts.length → ∃ piece ≠ [], here.Passes piece later) ∧
    ((∃ last, Lexer.run (2 * text.toList.length + 1) (.start text.toList) = .finished last ∧
        last.rest = [] ∧ last.contexts = [] ∧ last.offset = Text.byteLength text.toList) ∨
      ∃ last range, Lexer.run (2 * text.toList.length + 1) (.start text.toList) =
          .abandoned last ∧ last.errors.head? = some ⟨.nestedTooDeep, range⟩) := by
  have closed : (Cursor.ofTokens tokens).Closed := Cursor.closed_ofTokens ends.1
  refine ⟨fun cursor reached => loopsAdvance (reached.closed closed), ?_,
    fun _ _ _ _ reached goes inside => Lexer.passes_of_run reached goes inside,
    Lexer.run_ends _⟩
  cases read : Grammar.sequence (phrase maxNesting) [] (Cursor.ofTokens tokens) with
  | ok nodes last =>
      have stops := sequence_reaches_end (phrase_passesAtoms maxNesting) closed read
      have passed := (GoesForward.completed read).tokens
      rw [Cursor.tokens_ofTokens] at passed
      have atEnd : last.current.kind = .eof := by simpa [Cursor.endsSequence] using stops
      exact List.cons.inj (Cursor.tokens_at_end ends.2 passed atEnd)
  | error reason last =>
      cases reason with
      | recover => exact sequenceFrom_not_recover read
      | tooDeep => exact GoesForward.abandoned read
      | number fault =>
          have breaks : (Cursor.ofTokens tokens).CanBreakAt fault := GoesForward.faulted read
          unfold Cursor.CanBreakAt at breaks
          rwa [Cursor.tokens_ofTokens] at breaks

/-- The tokens of `^,)/#;_`, hardly any of which is where it belongs. -/
def misplacedMarks : TokenList where
  tokens := [⟨.hat, "^", .ofLength 0 1⟩, ⟨.comma, ",", .ofLength 1 1⟩,
    ⟨.rparen, ")", .ofLength 2 1⟩, ⟨.slash, "/", .ofLength 3 1⟩,
    ⟨.hash, "#", .ofLength 4 1⟩, ⟨.semicolon, ";", .ofLength 5 1⟩,
    ⟨.underscore, "_", .ofLength 6 1⟩]
  last := ⟨.eof, "", .empty 7⟩

/-- Reading recovers from two faults and reports a third one on its way to the end. -/
theorem reading_ends_of_misplacedMarks :
    misplacedMarks.EndsOnce ∧
      ∃ nodes last, Grammar.sequence (phrase maxNesting) [] (Cursor.ofTokens misplacedMarks) =
          .ok nodes last ∧
        last.current = misplacedMarks.last ∧ last.rest = [] ∧
        nodes.length = 2 ∧ last.errors.length = 3 := by
  have marked : misplacedMarks.EndsOnce := by decide
  have evaluated : (match Grammar.sequence (phrase maxNesting) []
      (Cursor.ofTokens misplacedMarks) with
      | .ok nodes last => nodes.length = 2 && last.errors.length = 3
      | .error _ _ => false) = true := by
    decide +kernel
  obtain ⟨-, ended, -⟩ := reading_ends misplacedMarks marked "^,)/#;_"
  cases read : Grammar.sequence (phrase maxNesting) [] (Cursor.ofTokens misplacedMarks) with
  | error reason last =>
      rw [read] at evaluated
      cases evaluated
  | ok nodes last =>
      rw [read] at evaluated ended
      simp only [Bool.and_eq_true, decide_eq_true_eq] at evaluated
      exact ⟨marked, nodes, last, rfl, ended.1, ended.2, evaluated⟩

end EquationMap
