import EquationMap.Proofs.Lexing.Coverage
import EquationMap.Proofs.Tree.Depth

namespace EquationMap

open Text

def LexContext.start? : LexContext → Option Nat
  | trailing => none
  | group start | block start _ => some start

namespace Lexer

def size (lexer : Lexer) : Nat :=
  2 * lexer.rest.length + lexer.contexts.length

/-- Whether the open contexts and the faults of a lexer lie between the characters of a text. -/
structure Placed (text : List Char) (lexer : Lexer) : Prop where
  follows : lexer.Follows text
  contexts : ∀ context ∈ lexer.contexts, ∀ start ∈ context.start?, IsBoundary text start
  errors : ∀ error ∈ lexer.errors, error.range.EndsAt (IsBoundary text)

/-- The invariant of what a step leads to: fewer steps are left, and nothing is abandoned without
a fault. -/
def Progress.Placed (text : List Char) (before : Nat) : Progress → Prop
  | .going next => next.Placed text ∧ next.size < before
  | .finished last => last.Placed text
  | .abandoned last => last.Placed text ∧ last.errors ≠ []

variable {text : List Char} {lexer : Lexer}

theorem Progress.Placed.mono {progress : Progress} {fewer more : Nat}
    (placed : progress.Placed text fewer) (le : fewer ≤ more) : progress.Placed text more := by
  cases progress with
  | going next => exact ⟨placed.1, Nat.lt_of_lt_of_le placed.2 le⟩
  | finished last => exact placed
  | abandoned last => exact placed

theorem Follows.boundary (follows : Follows text lexer) : IsBoundary text lexer.offset := by
  obtain ⟨done, split, offset, -⟩ := follows
  rw [split, offset]
  exact isBoundary_of_append done lexer.rest

theorem size_enter (context : LexContext) : (lexer.enter context).size = lexer.size + 1 :=
  rfl

theorem size_emit (lexer : Lexer) {lexeme : Lexeme} (nonempty : lexeme.source ≠ [])
    (more : lexer.rest ≠ []) : (lexer.emit lexeme).size + 2 ≤ lexer.size := by
  have some_source := List.length_pos_iff.mpr nonempty
  have some_rest := List.length_pos_iff.mpr more
  simp only [size, emit, skip, List.length_drop]
  omega

theorem countBracket_length (kind : TokenKind) (contexts : List LexContext) :
    (countBracket kind contexts).length = contexts.length := by
  unfold countBracket
  split <;> rfl

theorem countBracket_starts (kind : TokenKind) (contexts : List LexContext) :
    (countBracket kind contexts).map LexContext.start? = contexts.map LexContext.start? := by
  unfold countBracket
  split <;> rfl

namespace Placed

theorem start (text : List Char) : Placed text (.start text) where
  follows := follows_start text
  contexts _ member := by cases member
  errors _ member := by cases member

theorem skipBlanks (placed : Placed text lexer) : Placed text lexer.skipBlanks :=
  ⟨placed.follows.skipBlanks, placed.contexts, placed.errors⟩

theorem leave (placed : Placed text lexer) : Placed text lexer.leave :=
  ⟨placed.follows.leave,
    fun context member => placed.contexts context (List.mem_of_mem_tail member), placed.errors⟩

theorem enter (placed : Placed text lexer) {context : LexContext}
    (opened : ∀ start ∈ context.start?, IsBoundary text start) :
    Placed text (lexer.enter context) :=
  ⟨placed.follows.enter context, List.forall_mem_cons.mpr ⟨opened, placed.contexts⟩,
    placed.errors⟩

theorem emit (placed : Placed text lexer) {lexeme : Lexeme}
    (heads : lexeme.Heads lexer.rest) : Placed text (lexer.emit lexeme) :=
  ⟨placed.follows.emit heads, placed.contexts, placed.errors⟩

theorem emitChar (placed : Placed text lexer) (kind : TokenKind)
    (verbatim : kind.isVerbatim = true) {c : Char} {rest : List Char}
    (head : lexer.rest = c :: rest) : Placed text (lexer.emitChar kind c) :=
  placed.emit (head ▸ Lexeme.plain_char_heads verbatim c rest)

theorem emitMath (placed : Placed text lexer) {lexeme : Lexeme}
    (heads : lexeme.Heads lexer.rest) : Placed text (lexer.emitMath lexeme) := by
  refine ⟨placed.follows.emitMath heads, ?_, placed.errors⟩
  intro context member start opened
  have among : context.start? ∈ lexer.contexts.map LexContext.start? := by
    rw [← countBracket_starts lexeme.kind]
    exact List.mem_map_of_mem member
  obtain ⟨other, isOpen, same⟩ := List.mem_map.mp among
  exact placed.contexts other isOpen start (same ▸ opened)

theorem report (placed : Placed text lexer) (fault : SyntaxFault) {start : Nat}
    (begins : IsBoundary text start) : Placed text (lexer.report fault start) :=
  ⟨placed.follows.reportHere fault start, placed.contexts,
    List.forall_mem_cons.mpr ⟨.between begins placed.follows.boundary, placed.errors⟩⟩

theorem readString (placed : Placed text lexer) {rest : List Char}
    (head : lexer.rest = '"' :: rest) : Placed text (lexer.readString rest) := by
  have follows := placed.follows.readString head
  refine ⟨follows, ?_, ?_⟩
  · unfold Lexer.readString
    dsimp only
    split <;> exact placed.contexts
  · have stop := follows.boundary
    unfold Lexer.readString at stop ⊢
    dsimp only at stop ⊢
    split
    · exact placed.errors
    · rename_i notClosed
      rw [if_neg notClosed] at stop
      exact List.forall_mem_cons.mpr
        ⟨.between placed.follows.boundary stop, placed.errors⟩

theorem skipStray (placed : Placed text lexer) {c : Char} {rest : List Char}
    (head : lexer.rest = c :: rest) (fault : SyntaxFault) :
    Placed text ((lexer.skip [c]).report fault lexer.offset) := by
  have follows := placed.follows.skipStray head fault lexer.offset
  exact ⟨follows, placed.contexts,
    List.forall_mem_cons.mpr ⟨.between placed.follows.boundary follows.boundary, placed.errors⟩⟩

end Placed

theorem size_readString {rest : List Char} (head : lexer.rest = '"' :: rest) :
    (lexer.readString rest).size + 2 ≤ lexer.size := by
  have more : lexer.rest ≠ [] := head ▸ List.cons_ne_nil _ _
  unfold readString
  dsimp only
  split <;> exact size_emit lexer (List.cons_ne_nil _ _) more

theorem size_emitMath {lexeme : Lexeme} (nonempty : lexeme.source ≠ []) (more : lexer.rest ≠ []) :
    (lexer.emitMath lexeme).size + 2 ≤ lexer.size := by
  have emitted := size_emit lexer nonempty more
  unfold size emitMath at *
  rw [countBracket_length]
  exact emitted

theorem size_leave (lexer : Lexer) {context : LexContext} {outer : List LexContext}
    (opened : lexer.contexts = context :: outer) : lexer.leave.size < lexer.size := by
  unfold size leave
  rw [opened]
  exact Nat.lt_succ_self _

theorem size_leave_le : lexer.leave.size ≤ lexer.size := by
  unfold size leave
  simp only [List.length_tail]
  omega

theorem size_skipBlanks : lexer.skipBlanks.size ≤ lexer.size := by
  unfold size skipBlanks skip
  simp only [List.length_drop]
  omega

namespace Placed

theorem going_emit (placed : Placed text lexer) {lexeme : Lexeme}
    (heads : lexeme.Heads lexer.rest) (more : lexer.rest ≠ []) :
    (Progress.going (lexer.emit lexeme)).Placed text (lexer.size - 1) := by
  have shorter := size_emit lexer heads.nonempty more
  exact ⟨placed.emit heads, by omega⟩

theorem openWith (placed : Placed text lexer) {kind : TokenKind}
    (verbatim : kind.isVerbatim = true) {c : Char} {rest : List Char}
    (head : lexer.rest = c :: rest) {context : LexContext}
    (opened : ∀ start ∈ context.start?, IsBoundary text start) :
    (lexer.openWith kind c context).Placed text lexer.size := by
  have inner := (placed.emitChar kind verbatim head).enter opened
  have shorter : (lexer.emit (.plain kind [c])).size + 2 ≤ lexer.size :=
    size_emit lexer (List.cons_ne_nil _ _) (head ▸ List.cons_ne_nil _ _)
  unfold Lexer.openWith
  dsimp only
  split
  · exact ⟨inner.report _ placed.follows.boundary, List.cons_ne_nil _ _⟩
  · refine ⟨inner, ?_⟩
    rw [size_enter]
    unfold Lexer.emitChar
    omega

theorem openGroup (placed : Placed text lexer) {rest : List Char}
    (head : lexer.rest = '(' :: rest) : lexer.openGroup.Placed text lexer.size :=
  placed.openWith rfl head fun _ same => Option.some.inj same ▸ placed.follows.boundary

theorem openBlock (placed : Placed text lexer) {rest : List Char}
    (head : lexer.rest = '[' :: rest) : lexer.openBlock.Placed text lexer.size :=
  placed.openWith rfl head fun _ same => Option.some.inj same ▸ placed.follows.boundary

theorem embedded (placed : Placed text lexer) (hash : IsBoundary text (lexer.offset - 1)) :
    lexer.embedded.Placed text (lexer.size + 1) := by
  have inside : Placed text (lexer.enter .trailing) :=
    placed.enter fun _ none_open => by cases none_open
  have missing : (Progress.going
      (lexer.report .missingEmbedded (lexer.offset - 1))).Placed text (lexer.size + 1) :=
    ⟨placed.report _ hash, Nat.lt_succ_self _⟩
  unfold Lexer.embedded
  dsimp only
  split
  · exact missing
  · rename_i c rest head
    have more : lexer.rest ≠ [] := head ▸ List.cons_ne_nil _ _
    split
    · rename_i starts
      exact (inside.going_emit (head ▸ Lexeme.codeWord_heads starts rest) more).mono
        (Nat.sub_le _ _)
    · split
      · rename_i digit
        exact (inside.going_emit (head ▸ Lexeme.codeNumber_heads digit rest) more).mono
          (Nat.sub_le _ _)
      · split
        · rename_i isQuote
          subst isQuote
          have shorter : ((lexer.enter .trailing).readString rest).size + 2 ≤ _ :=
            size_readString head
          rw [size_enter] at shorter
          exact ⟨inside.readString head, by omega⟩
        · split
          · rename_i isParen
            subst isParen
            exact inside.openGroup head
          · split
            · rename_i isBracket
              subst isBracket
              exact inside.openBlock head
            · exact missing

theorem mathToken (placed : Placed text lexer) {c : Char} {rest : List Char}
    (head : lexer.rest = c :: rest) : (lexer.mathToken c rest).Placed text lexer.size := by
  have more : lexer.rest ≠ [] := head ▸ List.cons_ne_nil _ _
  have of_emit {lexeme : Lexeme} (heads : lexeme.Heads lexer.rest) :
      (Progress.going (lexer.emit lexeme)).Placed text lexer.size :=
    (placed.going_emit heads more).mono (Nat.sub_le _ _)
  unfold Lexer.mathToken
  split
  · rename_i isHash
    subst isHash
    -- The hash is a token of its own, which pays for the context that is entered behind it.
    have shorter : (lexer.emit (.plain .hash ['#'])).size + 2 ≤ lexer.size :=
      size_emit lexer (List.cons_ne_nil _ _) more
    refine ((placed.emitChar .hash rfl head).embedded placed.follows.boundary).mono ?_
    unfold Lexer.emitChar
    omega
  · split
    · rename_i isQuote
      subst isQuote
      have shorter := size_readString head
      exact ⟨placed.readString head, by omega⟩
    · split
      · rename_i isBackslash
        subst isBackslash
        exact of_emit (head ▸ Lexeme.backslash_heads rest)
      · split
        · rename_i digit
          refine of_emit (head ▸ Lexeme.plain_heads rfl ?_ ?_)
          · exact Lexeme.numberSource_ne_nil digit rest
          · exact Lexeme.numberSource_isPrefix _
        · split
          · rename_i letter
            exact of_emit (head ▸ Lexeme.word_heads letter rest)
          · have heads := head ▸ Lexeme.mark_heads c rest
            have shorter := size_emitMath heads.nonempty more
            exact ⟨placed.emitMath heads, by omega⟩

theorem codeToken (placed : Placed text lexer) {c : Char} {rest : List Char}
    (head : lexer.rest = c :: rest) : (lexer.codeToken c rest).Placed text lexer.size := by
  have more : lexer.rest ≠ [] := head ▸ List.cons_ne_nil _ _
  have of_emit {lexeme : Lexeme} (heads : lexeme.Heads lexer.rest) :
      (Progress.going (lexer.emit lexeme)).Placed text lexer.size :=
    (placed.going_emit heads more).mono (Nat.sub_le _ _)
  unfold Lexer.codeToken
  split
  · rename_i isClosing
    subst isClosing
    have shorter : (lexer.emit (.plain .rparen [')'])).size + 2 ≤ lexer.size :=
      size_emit lexer (List.cons_ne_nil _ _) more
    refine ⟨(placed.emitChar .rparen rfl head).leave, Nat.lt_of_le_of_lt size_leave_le ?_⟩
    unfold Lexer.emitChar
    omega
  · split
    · rename_i isParen
      subst isParen
      exact placed.openGroup head
    · split
      · rename_i isBracket
        subst isBracket
        exact placed.openBlock head
      · split
        · rename_i starts
          exact of_emit (head ▸ Lexeme.codeWord_heads starts rest)
        · split
          · rename_i digit
            exact of_emit (head ▸ Lexeme.codeNumber_heads digit rest)
          · split
            · rename_i isQuote
              subst isQuote
              have shorter := size_readString head
              exact ⟨placed.readString head, by omega⟩
            · split
              · rename_i lexeme found
                exact of_emit (Lexeme.codeMark?_heads found)
              · refine ⟨placed.skipStray head _, ?_⟩
                unfold size Lexer.report skip
                simp only [head, List.length_cons, List.length_nil, List.drop_succ_cons,
                  List.drop_zero]
                omega

theorem trailingToken (placed : Placed text lexer) {context : LexContext}
    {outer : List LexContext} (opened : lexer.contexts = context :: outer) :
    lexer.trailingToken.Placed text lexer.size := by
  have left : (Progress.going lexer.leave).Placed text lexer.size :=
    ⟨placed.leave, size_leave lexer opened⟩
  unfold Lexer.trailingToken
  split
  · rename_i head
    exact placed.openGroup head
  · rename_i head
    exact placed.openBlock head
  · rename_i c rest head
    split
    · rename_i starts
      have shorter : (lexer.emit (.plain .dot ['.'])).size + 2 ≤ lexer.size :=
        size_emit lexer (List.cons_ne_nil _ _) (head ▸ List.cons_ne_nil _ _)
      have next : (lexer.emitChar .dot '.').rest = c :: rest := by
        simp [Lexer.emitChar, Lexer.emit, skip, Lexeme.plain, head]
      refine ((placed.emitChar .dot rfl head).going_emit ?_ ?_).mono ?_
      · rw [next]
        exact Lexeme.codeWord_heads starts rest
      · rw [next]
        exact List.cons_ne_nil _ _
      · unfold Lexer.emitChar
        omega
    · exact left
  · exact left

theorem step (placed : Placed text lexer) : lexer.step.Placed text lexer.size := by
  -- A step reads a character or leaves a context, and either makes the lexer smaller.
  have here := placed.skipBlanks
  have shorter : lexer.skipBlanks.size ≤ lexer.size := size_skipBlanks
  unfold Lexer.step
  dsimp only
  split
  · split
    · exact here
    · rename_i head
      exact (here.mathToken head).mono shorter
  · rename_i opened
    exact placed.trailingToken opened
  · rename_i start outer opened
    have begins : IsBoundary text start :=
      placed.contexts _ (opened ▸ List.mem_cons_self) start rfl
    split
    · refine ⟨(here.report _ begins).leave, Nat.lt_of_lt_of_le ?_ shorter⟩
      exact size_leave _ opened
    · rename_i head
      exact (here.codeToken head).mono shorter
  · rename_i start brackets outer opened
    have begins : IsBoundary text start :=
      placed.contexts _ (opened ▸ List.mem_cons_self) start rfl
    split
    · refine ⟨(here.report _ begins).leave, Nat.lt_of_lt_of_le ?_ shorter⟩
      exact size_leave _ opened
    · rename_i c rest head
      split
      · have closed : (lexer.skipBlanks.emit (.plain .rbracket [c])).size + 2 ≤ _ :=
          size_emit lexer.skipBlanks (List.cons_ne_nil _ _) (head ▸ List.cons_ne_nil _ _)
        refine ⟨(here.emitChar .rbracket rfl head).leave, Nat.lt_of_le_of_lt size_leave_le ?_⟩
        unfold Lexer.emitChar
        omega
      · exact (here.mathToken head).mono shorter

/-- Steps that do not come to an end use up the steps that may be taken. -/
theorem run (placed : Placed text lexer) (fuel : Nat) :
    match Lexer.run fuel lexer with
    | .going last => last.Placed text ∧ last.size + fuel ≤ lexer.size
    | .finished last => last.Placed text
    | .abandoned last => last.Placed text ∧ last.errors ≠ [] := by
  induction fuel generalizing lexer with
  | zero => exact ⟨placed, Nat.le_refl _⟩
  | succ fuel ih =>
      have stepped := placed.step
      unfold Lexer.run
      cases next : lexer.step with
      | going next =>
          rw [next] at stepped
          obtain ⟨next_placed, shorter⟩ := stepped
          have later := ih next_placed
          dsimp only
          split at later
          · exact ⟨later.1, by omega⟩
          · exact later
          · exact later
      | finished last =>
          rw [next] at stepped
          exact stepped
      | abandoned last =>
          rw [next] at stepped
          exact stepped

end Placed

end Lexer

theorem tokenize_errors {text : String} {errors : List SyntaxError}
    (tokenized : tokenize text = .error errors) :
    errors ≠ [] ∧ ∀ error ∈ errors, error.range.EndsAt (IsBoundary text.toList) := by
  have ended := (Lexer.Placed.start text.toList).run (2 * text.toList.length + 1)
  have of_reverse {last : Lexer} (placed : last.Placed text.toList)
      (some_error : last.errors ≠ []) :
      last.errors.reverse ≠ [] ∧
        ∀ error ∈ last.errors.reverse, error.range.EndsAt (IsBoundary text.toList) :=
    ⟨List.reverse_ne_nil_iff.mpr some_error,
      fun error member => placed.errors error (List.mem_reverse.mp member)⟩
  unfold tokenize at tokenized
  dsimp only at tokenized
  split at ended
  · rename_i last going
    have steps : (Lexer.start text.toList).size = 2 * text.toList.length := rfl
    omega
  · rename_i last finished
    rw [finished] at tokenized
    dsimp only at tokenized
    unfold Lexer.result at tokenized
    split at tokenized
    · cases tokenized
    · rename_i faulty
      cases tokenized
      exact of_reverse ended fun clean => faulty (List.isEmpty_iff.mpr clean)
  · rename_i last abandoned
    rw [abandoned] at tokenized
    cases tokenized
    exact of_reverse ended.1 ended.2

end EquationMap
