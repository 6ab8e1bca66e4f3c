import EquationMap.Proofs.Lexing.Blocks
import EquationMap.Proofs.Literals.Values
import EquationMap.Proofs.Spacing.Reading
import Mathlib.Logic.Relation

namespace EquationMap

theorem Text.Ranges.exists_of_contains {ranges : Ranges} {c : Char}
    (contained : ranges.contains c = true) :
    ∃ range ∈ ranges, range.1 ≤ c.toNat ∧ c.toNat ≤ range.2 := by
  unfold contains offset? at contained
  induction ranges with
  | nil => cases contained
  | cons range rest induction =>
      obtain ⟨first, last⟩ := range
      unfold offsetOf? at contained
      split at contained
      · cases contained
      · split at contained
        · exact ⟨(first, last), List.mem_cons_self, by omega⟩
        · obtain ⟨range, member, within⟩ := induction contained
          exact ⟨range, List.mem_cons_of_mem _ member, within⟩

theorem isBlank_of_startsName {c : Char} (starts : startsName c = true) :
    Text.isBlank c = false := by
  have apart : ∀ range ∈ Text.blanks, ∀ code ∈ List.range' range.1 (range.2 + 1 - range.1),
      (Text.letters.offsetOf? code).isSome = false ∧ code ≠ '_'.toNat := by
    decide +kernel
  by_contra blank
  obtain ⟨range, member, least, most⟩ :=
    Text.Ranges.exists_of_contains (Bool.not_eq_false _ ▸ blank)
  obtain ⟨noLetter, noUnderscore⟩ :=
    apart range member c.toNat (List.mem_range'_1.mpr ⟨least, by omega⟩)
  rcases Bool.or_eq_true _ _ ▸ starts with letter | underscore
  · exact Bool.false_ne_true (noLetter.symm.trans letter)
  · exact noUnderscore (congrArg Char.toNat (beq_iff_eq.mp underscore))

namespace Lexer

variable {text : String} {lexer next middle last : Lexer}
  {tokens more : List (TokenKind × String)}

abbrev LeadsTo : Lexer → Lexer → Prop :=
  Relation.ReflTransGen fun lexer next => lexer.step = .going next

theorem Reached.leads (reached : Reached text lexer) (leads : lexer.LeadsTo next) :
    Reached text next := by
  induction leads with
  | refl => exact reached
  | tail _ stepped reached => exact reached.step stepped

theorem run_add (fuel more : Nat) (lexer : Lexer) :
    run (fuel + more) lexer =
      match run fuel lexer with
      | .going next => run more next
      | .finished last => .finished last
      | .abandoned last => .abandoned last := by
  induction fuel generalizing lexer with
  | zero => rw [Nat.zero_add, run]
  | succ fuel induction =>
      rw [Nat.succ_add, run, run]
      cases lexer.step with
      | going next => exact induction next
      | finished last => rfl
      | abandoned last => rfl

theorem Reached.exists_run (reached : Reached text lexer)
    (finishes : ∃ fuel, run fuel lexer = .finished last) :
    ∃ fuel, run fuel (.start text.toList) = .finished last := by
  induction reached with
  | start => exact finishes
  | step reached stepped induction =>
      obtain ⟨fuel, ran⟩ := finishes
      refine induction ⟨fuel + 1, ?_⟩
      rw [run, stepped]
      exact ran

theorem tokenize_of_reached (reached : Reached text lexer) (finishes : lexer.step = .finished last)
    (clean : last.errors = []) :
    tokenize text = .ok ⟨last.tokens.reverse, ⟨.eof, "", .empty last.offset⟩⟩ := by
  obtain ⟨fuel, ran⟩ := reached.exists_run ⟨1, by rw [run, finishes]⟩
  have granted : run (2 * text.toList.length + 1) (.start text.toList) = .finished last := by
    rcases Nat.le_total fuel (2 * text.toList.length + 1) with le | le
    · obtain ⟨more, enough⟩ := Nat.exists_eq_add_of_le le
      rw [enough, run_add, ran]
    · obtain ⟨more, enough⟩ := Nat.exists_eq_add_of_le le
      have ended := (Placed.start text.toList).run (2 * text.toList.length + 1)
      rw [enough, run_add] at ran
      split at ran
      · rename_i next going
        rw [going] at ended
        have steps : (Lexer.start text.toList).size = 2 * text.toList.length := rfl
        dsimp only at ended
        omega
      · rename_i final finished
        rw [finished, ran]
      · cases ran
  unfold tokenize
  dsimp only
  rw [granted]
  dsimp only
  rw [result, clean]
  rfl

/-! Groups of code. -/

/-- Whether a lexer has a text left to read, with a blank before it or not. -/
def Faces (lexer : Lexer) (text : List Char) : Prop :=
  lexer.rest = text ∨ lexer.rest = ' ' :: text

/-- Whether steps lead over some tokens to a place in the same contexts, without a fault. -/
structure Crosses (lexer : Lexer) (tokens : List (TokenKind × String)) (next : Lexer) : Prop where
  leads : lexer.LeadsTo next
  contexts : next.contexts = lexer.contexts
  errors : next.errors = lexer.errors
  tokens : next.tokens.map Token.bare = tokens.reverse ++ lexer.tokens.map Token.bare

theorem Crosses.refl (lexer : Lexer) : lexer.Crosses [] lexer :=
  ⟨.refl, rfl, rfl, rfl⟩

theorem Crosses.trans (crosses : lexer.Crosses tokens middle)
    (later : middle.Crosses more next) : lexer.Crosses (tokens ++ more) next where
  leads := crosses.leads.trans later.leads
  contexts := later.contexts.trans crosses.contexts
  errors := later.errors.trans crosses.errors
  tokens := by
    rw [later.tokens, crosses.tokens, List.reverse_append, List.append_assoc]

variable {start : Nat} {outer : List LexContext} {c : Char} {after : List Char}

theorem rest_skipBlanks (faces : lexer.Faces (c :: after)) (solid : Text.isBlank c = false) :
    lexer.skipBlanks.rest = c :: after := by
  have blank : Text.isBlank ' ' = true := by decide
  rcases faces with here | here <;> simp [skipBlanks, skip, here, solid, blank]

theorem step_group (inside : lexer.contexts = .group start :: outer)
    (faces : lexer.Faces (c :: after)) (solid : Text.isBlank c = false) :
    lexer.step = lexer.skipBlanks.codeToken c after := by
  unfold step
  rw [inside]
  dsimp only
  rw [rest_skipBlanks faces solid]

theorem crosses_emit (lexeme : Lexeme) {rest : List Char}
    (inside : lexer.contexts = .group start :: outer) (head : lexeme.source = c :: after)
    (solid : Text.isBlank c = false) (faces : lexer.Faces (lexeme.source ++ rest))
    (read : ∀ here : Lexer, here.rest = c :: (after ++ rest) →
      here.codeToken c (after ++ rest) = .going (here.emit lexeme)) :
    ∃ next, lexer.Crosses [(lexeme.kind, lexeme.value)] next ∧ next.rest = rest := by
  rw [head, List.cons_append] at faces
  have here := rest_skipBlanks faces solid
  refine ⟨lexer.skipBlanks.emit lexeme, ⟨.single ?_, rfl, rfl, rfl⟩, ?_⟩
  · rw [step_group inside faces solid, read _ here]
  · change lexer.skipBlanks.rest.drop lexeme.source.length = rest
    rw [here, ← List.cons_append, ← head, List.drop_left]

def EndsLiteral (text : List Char) : Prop :=
  ∃ c rest, text = c :: rest ∧ (c = ',' ∨ c = ':' ∨ c = ')')

/-- Whether a text in a group is divided into some tokens wherever a literal ends after it and so
many more groups may be opened. -/
def Divides (depth : Nat) (source : List Char) (tokens : List (TokenKind × String)) : Prop :=
  ∀ ⦃lexer : Lexer⦄ ⦃start : Nat⦄ ⦃outer : List LexContext⦄ ⦃rest : List Char⦄,
    lexer.contexts = .group start :: outer →
    lexer.contexts.countP LexContext.nests + depth ≤ maxNesting →
    lexer.Faces (source ++ rest) → EndsLiteral rest →
    ∃ next : Lexer, lexer.Crosses tokens next ∧ next.Faces rest

variable {depth : Nat} {source later : List Char}

theorem divides_nil : Divides depth [] [] :=
  fun lexer _ _ _ _ _ faces _ => ⟨lexer, .refl lexer, faces⟩

theorem Divides.append (divides : Divides depth source tokens)
    (divides_later : Divides depth (c :: later) more) (isEnd : c = ',' ∨ c = ':') :
    Divides depth (source ++ c :: later) (tokens ++ more) := by
  intro lexer start outer rest inside fits faces ends
  rw [List.append_assoc] at faces
  obtain ⟨middle, crosses, faces⟩ := divides inside fits faces
    ⟨c, later ++ rest, rfl, isEnd.imp_right .inl⟩
  have same := crosses.contexts
  obtain ⟨next, later_crosses, faces⟩ :=
    divides_later (same.trans inside) (same ▸ fits) faces ends
  exact ⟨next, crosses.trans later_crosses, faces⟩

/-! Single tokens. -/

theorem divides_lexeme (lexeme : Lexeme) (head : lexeme.source = c :: after)
    (solid : Text.isBlank c = false)
    (read : ∀ (here : Lexer) (rest : List Char), EndsLiteral rest →
      here.rest = c :: (after ++ rest) →
      here.codeToken c (after ++ rest) = .going (here.emit lexeme)) :
    Divides depth lexeme.source [(lexeme.kind, lexeme.value)] := by
  intro lexer start outer rest inside _ faces ends
  obtain ⟨next, crosses, left⟩ :=
    crosses_emit lexeme inside head solid faces fun here => read here rest ends
  exact ⟨next, crosses, .inl left⟩

theorem takeWhile_append_of_ends {test : Char → Bool} {word : List Char}
    (passes : ∀ d ∈ word, test d = true) (ends : EndsLiteral after)
    (stops : [',', ':', ')'].any test = false) : (word ++ after).takeWhile test = word := by
  obtain ⟨d, rest, rfl, isEnd⟩ := ends
  have stop : ¬test d = true := by
    rcases isEnd with rfl | rfl | rfl <;> exact List.any_eq_false.mp stops _ (by simp)
  rw [List.takeWhile_append_of_pos passes, List.takeWhile_cons_of_neg stop, List.append_nil]

theorem divides_word (starts : startsName c = true)
    (word : ∀ d ∈ after, Text.isWordChar d = true) :
    Divides depth (c :: after)
      [((Token.keywords.lookup (String.ofList (c :: after))).getD .ident,
        String.ofList (c :: after))] := by
  refine divides_lexeme ⟨_, _, c :: after⟩ rfl (isBlank_of_startsName starts)
    fun here rest ends left => ?_
  have noMark {d : Char} (other : startsName d = false) : c ≠ d := by
    rintro rfl
    exact Bool.noConfusion (starts.symm.trans other)
  have whole : (c :: (after ++ rest)).takeWhile Text.isWordChar = c :: after :=
    takeWhile_append_of_ends
      (List.forall_mem_cons.mpr ⟨Lexeme.isWordChar_of_startsName starts, word⟩) ends (by decide)
  unfold codeToken
  rw [if_neg (noMark (by decide)), if_neg (noMark (by decide)), if_neg (noMark (by decide)),
    if_pos starts, left, Lexeme.codeWord, whole]
  rfl

/-- What the lexer takes a digit from zero to nine for. -/
structure IsDecimal (c : Char) : Prop where
  digit : Text.isDigit c = true
  noName : startsName c = false
  solid : Text.isBlank c = false
  noMark : c ≠ ')' ∧ c ≠ '(' ∧ c ≠ '['
  value : Text.decimalValue? c = some (c.toNat - '0'.toNat)

theorem isDecimal_of_isDigit (isDigit : c.isDigit = true) : IsDecimal c := by
  have all : ∀ code ∈ List.range' 48 10, Text.isDigit (Char.ofNat code) = true ∧
      startsName (Char.ofNat code) = false ∧ Text.isBlank (Char.ofNat code) = false ∧
      (Char.ofNat code ≠ ')' ∧ Char.ofNat code ≠ '(' ∧ Char.ofNat code ≠ '[') ∧
      Text.decimalValue? (Char.ofNat code) = some ((Char.ofNat code).toNat - '0'.toNat) := by
    decide +kernel
  have bounds : '0'.toNat ≤ c.toNat ∧ c.toNat ≤ '9'.toNat := by
    simp only [Char.isDigit, Bool.and_eq_true, decide_eq_true_eq, UInt32.le_iff_toNat_le]
      at isDigit
    exact isDigit
  obtain ⟨digit, noName, solid, noMark, value⟩ :=
    Char.ofNat_toNat c ▸ all c.toNat (List.mem_range'_1.mpr ⟨bounds.1, Nat.lt_succ_of_le bounds.2⟩)
  exact ⟨digit, noName, solid, noMark, value⟩

theorem isDecimal_of_mem_toDigits {size : Nat} (member : c ∈ Nat.toDigits 10 size) :
    IsDecimal c :=
  isDecimal_of_isDigit (Nat.isDigit_of_mem_toDigits (by decide) (by decide) member)

theorem numberSource_append {digits : List Char} (all : ∀ d ∈ digits, Text.isDigit d = true)
    (ends : EndsLiteral after) : Lexeme.numberSource (digits ++ after) = (digits, false) := by
  have whole : (digits ++ after).takeWhile Text.isDigit = digits :=
    takeWhile_append_of_ends all ends (by decide)
  have left : (digits ++ after).dropWhile Text.isDigit = after := by
    have both : (digits ++ after).takeWhile Text.isDigit ++
        (digits ++ after).dropWhile Text.isDigit = digits ++ after :=
      List.takeWhile_append_dropWhile
    rw [whole] at both
    exact List.append_cancel_left both
  unfold Lexeme.numberSource
  rw [whole, left]
  obtain ⟨d, rest, rfl, rfl | rfl | rfl⟩ := ends <;> rfl

theorem divides_number (size : Nat) :
    Divides depth (Nat.toDigits 10 size) [(.int, toString size)] := by
  obtain ⟨c, after, split⟩ :=
    List.exists_cons_of_ne_nil (Nat.toDigits_ne_nil : Nat.toDigits 10 size ≠ [])
  have decimal : IsDecimal c :=
    isDecimal_of_mem_toDigits (by rw [split]; exact List.mem_cons_self)
  refine divides_lexeme ⟨.int, toString size, Nat.toDigits 10 size⟩ split decimal.solid
    fun here rest ends left => ?_
  have number : Lexeme.codeNumber (c :: (after ++ rest)) =
      ⟨.int, toString size, Nat.toDigits 10 size⟩ := by
    rw [← List.cons_append, ← split, Lexeme.codeNumber,
      numberSource_append (fun d member => (isDecimal_of_mem_toDigits member).digit) ends]
    rfl
  obtain ⟨noClose, noOpen, noBlock⟩ := decimal.noMark
  unfold codeToken
  rw [if_neg noClose, if_neg noOpen, if_neg noBlock, decimal.noName, if_neg Bool.false_ne_true,
    if_pos decimal.digit, left, number]

theorem stringTail_append {source decoded : List Char} (rest : List Char)
    (read : decodeContents? source = some decoded) :
    Lexeme.stringTail (source ++ rest) = ⟨decoded, source, true⟩ := by
  fun_induction decodeContents? source generalizing decoded with
  | case1 => cases read
  | case2 c later induction =>
      obtain ⟨inner, inner_read, rfl⟩ := Option.map_eq_some_iff.mp read
      rw [List.cons_append, List.cons_append, Lexeme.stringTail, induction inner_read]
  | case3 later atEnd notEscape =>
      cases read
      rw [List.isEmpty_iff.mp atEnd]
      rfl
  | case4 later goesOn notEscape => cases read
  | case5 c later notEscape notQuote induction =>
      obtain ⟨inner, inner_read, rfl⟩ := Option.map_eq_some_iff.mp read
      rw [List.cons_append, Lexeme.stringTail, if_neg notQuote, induction inner_read]
      rintro d more rfl same
      cases later with
      | nil => cases inner_read
      | cons e later => exact notEscape e later rfl rfl

theorem divides_text {contents decoded : List Char}
    (read : decodeContents? contents = some decoded) :
    Divides depth ('"' :: contents) [(.string, String.ofList decoded)] := by
  refine divides_lexeme ⟨.string, String.ofList decoded, '"' :: contents⟩ rfl (by decide)
    fun here rest ends left => ?_
  unfold codeToken
  rw [if_neg (by decide), if_neg (by decide), if_neg (by decide), if_neg (by decide),
    if_neg (by decide), if_pos rfl, readString, stringTail_append rest read]
  rfl

structure IsMark (c : Char) (kind : TokenKind) (value : String) : Prop where
  solid : Text.isBlank c = false
  noParen : c ≠ ')' ∧ c ≠ '(' ∧ c ≠ '['
  noLiteral : startsName c = false ∧ Text.isDigit c = false ∧ c ≠ '"'
  mark : ∀ rest, Lexeme.codeMark? (c :: rest) = some ⟨kind, value, [c]⟩

theorem isMark_comma : IsMark ',' .comma "," :=
  ⟨by decide, by decide, by decide, fun _ => rfl⟩

theorem isMark_colon : IsMark ':' .colon ":" :=
  ⟨by decide, by decide, by decide, fun _ => rfl⟩

theorem isMark_minus : IsMark '-' .minus "-" :=
  ⟨by decide, by decide, by decide, fun _ => rfl⟩

theorem IsMark.divides {kind : TokenKind} {value : String} {blank : List Char}
    (mark : IsMark c kind value) (divides : Divides depth later tokens)
    (atMost : blank = [] ∨ blank = [' ']) :
    Divides depth (c :: blank ++ later) ((kind, value) :: tokens) := by
  intro lexer start outer rest inside fits faces ends
  obtain ⟨noClose, noOpen, noBlock⟩ := mark.noParen
  obtain ⟨noName, noDigit, noQuote⟩ := mark.noLiteral
  rw [List.append_assoc] at faces
  obtain ⟨middle, crosses, left⟩ := crosses_emit ⟨kind, value, [c]⟩ inside rfl mark.solid faces
    fun here left => by
      unfold codeToken
      rw [if_neg noClose, if_neg noOpen, if_neg noBlock, noName, if_neg Bool.false_ne_true,
        noDigit, if_neg Bool.false_ne_true, if_neg noQuote, left, mark.mark]
  have same := crosses.contexts
  have faces_later : middle.Faces (later ++ rest) := by
    rcases atMost with rfl | rfl
    · exact .inl left
    · exact .inr left
  obtain ⟨next, later_crosses, faces⟩ :=
    divides (same.trans inside) (same ▸ fits) faces_later ends
  exact ⟨next, crosses.trans later_crosses, faces⟩

/-! Groups. -/

/-- A group is read from its opening parenthesis on, if its contents are and it nests in no more
groups than it may. -/
theorem Divides.exists_group {rest : List Char} (divides : Divides depth source tokens)
    (here : Lexer)
    (fits : here.contexts.countP LexContext.nests + (depth + 1) ≤ maxNesting)
    (left : here.rest = '(' :: (source ++ ')' :: rest)) :
    ∃ inner next, here.openGroup = .going inner ∧ inner.LeadsTo next ∧
      next.contexts = here.contexts ∧ next.errors = here.errors ∧ next.rest = rest ∧
      next.tokens.map Token.bare =
        (Value.grouped tokens).reverse ++ here.tokens.map Token.bare := by
  -- Given by an equation, so that the lexer in the group stays folded below.
  obtain ⟨inner, inner_eq⟩ : ∃ inner,
      inner = (here.emitChar .lparen '(').enter (.group here.offset) := ⟨_, rfl⟩
  have inside : inner.contexts = .group here.offset :: here.contexts := inner_eq ▸ rfl
  have count : inner.contexts.countP LexContext.nests =
      here.contexts.countP LexContext.nests + 1 := by
    rw [inside]
    exact List.countP_cons_of_pos rfl
  have faces : inner.Faces (source ++ ')' :: rest) := by
    subst inner_eq
    exact .inl (congrArg (List.drop 1) left)
  obtain ⟨middle, crosses, faces⟩ :=
    divides inside (by omega) faces ⟨')', rest, rfl, .inr (.inr rfl)⟩
  have middle_inside := crosses.contexts.trans inside
  refine ⟨inner, (middle.skipBlanks.emitChar .rparen ')').leave, ?_, crosses.leads.tail ?_,
    congrArg List.tail middle_inside, ?_, ?_, ?_⟩
  · unfold openGroup openWith
    rw [← inner_eq]
    exact if_neg (by omega)
  · rw [step_group middle_inside faces (by decide), codeToken, if_pos rfl]
  · exact crosses.errors.trans (inner_eq ▸ rfl)
  · change middle.skipBlanks.rest.drop 1 = rest
    rw [rest_skipBlanks faces (by decide)]
    rfl
  · have read : (middle.skipBlanks.emitChar .rparen ')').leave.tokens.map Token.bare =
        (.rparen, ")") :: middle.tokens.map Token.bare := rfl
    have opened : inner.tokens.map Token.bare = (.lparen, "(") :: here.tokens.map Token.bare :=
      inner_eq ▸ rfl
    rw [read, crosses.tokens, opened, Value.grouped]
    simp

theorem Divides.group (divides : Divides depth source tokens) :
    Divides (depth + 1) ('(' :: source ++ [')']) (Value.grouped tokens) := by
  intro lexer start outer rest inside fits faces ends
  rw [List.append_assoc, List.cons_append] at faces
  have left := rest_skipBlanks faces (by decide)
  obtain ⟨inner, next, opens, leads, contexts, errors, left, read⟩ :=
    divides.exists_group lexer.skipBlanks fits left
  have stepped : lexer.step = .going inner := by
    rw [step_group inside faces (by decide), codeToken, if_neg (by decide), if_pos rfl]
    exact opens
  exact ⟨next, ⟨.head stepped leads, contexts, errors, read⟩, .inl left⟩

theorem Divides.mono {less : Nat} (divides : Divides less source tokens) (le : less ≤ depth) :
    Divides depth source tokens :=
  fun _ _ _ _ inside fits faces ends => divides inside (by omega) faces ends

section

variable {α : Type} {parts : List α} {code : α → List Char}
  {written : α → List (TokenKind × String)}

theorem divides_intercalate (all : ∀ part ∈ parts, Divides depth (code part) (written part)) :
    Divides depth ([',', ' '].intercalate (parts.map code))
      ([(.comma, ",")].intercalate (parts.map written)) := by
  induction parts with
  | nil => exact divides_nil
  | cons part rest induction =>
      obtain ⟨here, later⟩ := List.forall_mem_cons.mp all
      cases rest with
      | nil => simpa using here
      | cons second rest =>
          have more := isMark_comma.divides (induction later) (.inr rfl)
          exact here.append more (.inl rfl)

theorem divides_joined (all : ∀ part ∈ parts, Divides depth (code part) (written part)) :
    Divides depth (joined [',', ' '] [','] (parts.map code))
      (joined [(.comma, ",")] [(.comma, ",")] (parts.map written)) := by
  match parts with
  | [] => exact divides_nil
  | [part] =>
      exact (all part List.mem_cons_self).append (isMark_comma.divides divides_nil (.inl rfl))
        (.inl rfl)
  | first :: second :: rest => exact divides_intercalate all

end

theorem step_of_trailing {lexer : Lexer} {outer : List LexContext}
    (inside : lexer.contexts = .trailing :: outer) (ended : lexer.rest = []) :
    lexer.step = .going lexer.leave := by
  rw [step, inside]
  dsimp only
  rw [trailingToken, ended]

theorem step_of_end {lexer : Lexer} (outside : lexer.contexts = []) (ended : lexer.rest = []) :
    lexer.step = .finished lexer.skipBlanks := by
  have none_left : lexer.skipBlanks.rest = [] := by
    change lexer.rest.drop _ = []
    rw [ended, List.drop_nil]
  rw [step, outside]
  dsimp only
  rw [none_left]

theorem tokenize_of_divides (divides : Divides depth source tokens) (fits : depth < maxNesting)
    (split : text.toList = '#' :: '(' :: (source ++ [')'])) :
    ∃ found, tokenize text = .ok found ∧
      found.tokens.map Token.bare = (.hash, "#") :: Value.grouped tokens := by
  obtain ⟨hash, hash_eq⟩ : ∃ hash : Lexer,
      hash = (Lexer.start text.toList).skipBlanks.emitChar .hash '#' := ⟨_, rfl⟩
  have faces : (Lexer.start text.toList).Faces ('#' :: '(' :: (source ++ [')'])) := .inl split
  have left := rest_skipBlanks faces (by decide)
  have hash_rest : hash.rest = '(' :: (source ++ [')']) := by
    subst hash_eq
    exact congrArg (List.drop 1) left
  have nested : (hash.enter .trailing).contexts.countP LexContext.nests = 0 := hash_eq ▸ rfl
  obtain ⟨inner, next, opens, leads, contexts, errors, ended, read⟩ :=
    divides.exists_group (hash.enter .trailing) (by omega) hash_rest
  have opened : (Lexer.start text.toList).step = .going inner := by
    have embeds : (Lexer.start text.toList).step = hash.embedded := by
      have outside : (Lexer.start text.toList).contexts = [] := rfl
      rw [step, outside]
      dsimp only
      rw [left, hash_eq]
      rfl
    rw [embeds, embedded, hash_rest]
    exact opens
  -- Behind the group the lexer leaves the expression and finds the end of the text.
  have outside : next.contexts = [.trailing] := contexts.trans (hash_eq ▸ rfl)
  have closed := step_of_trailing outside ended
  have finishes : next.leave.step = .finished next.leave.skipBlanks :=
    step_of_end (congrArg List.tail outside) ended
  have reached : Reached text next.leave :=
    ((Reached.start.step opened).leads leads).step closed
  refine ⟨_, tokenize_of_reached reached finishes (errors.trans (hash_eq ▸ rfl)), ?_⟩
  change next.tokens.reverse.map Token.bare = _
  have first : (hash.enter .trailing).tokens.map Token.bare = [(.hash, "#")] := hash_eq ▸ rfl
  rw [List.map_reverse, read, first]
  simp

end Lexer

namespace Value

open Lexer

theorem divides_keyword {c : Char} {rest : List Char} {kind : TokenKind} {depth : Nat}
    (starts : startsName c = true) (word : rest.all Text.isWordChar = true)
    (found : Token.keywords.lookup (String.ofList (c :: rest)) = some kind) :
    Divides depth (c :: rest) [(kind, String.ofList (c :: rest))] := by
  have divides : Divides depth (c :: rest) _ :=
    divides_word starts (List.all_eq_true.mp word)
  rw [found] at divides
  exact divides

theorem divides_name {name : String} {depth : Nat} (isName : IsCodeName name) :
    Divides depth name.toList [(.ident, name)] := by
  obtain ⟨c, rest, split, starts, word⟩ := isName.isWord
  have divides : Divides depth (c :: rest) _ := divides_word starts word
  rw [← split, String.ofList_toList, isName.noKeyword] at divides
  exact divides

theorem divides_str {text : String} {depth : Nat} (closes : (rereadText? text).isSome = true) :
    Divides depth (str text).code.toList (str text).reread.bareTokens := by
  obtain ⟨read, reread_eq⟩ := Option.isSome_iff_exists.mp closes
  have found := reread_eq
  rw [rereadText?_eq] at found
  obtain ⟨decoded, decodes, rfl⟩ := Option.map_eq_some_iff.mp found
  rw [code, toList_quoteString, Value.reread, reread_eq]
  exact divides_text decodes

theorem divides_int (value : Int) {depth : Nat} :
    Divides depth (int value).code.toList (int value).reread.bareTokens := by
  cases value with
  | ofNat size =>
      have written : (int (.ofNat size)).code.toList = Nat.toDigits 10 size :=
        Nat.toList_repr
      rw [written]
      exact divides_number size
  | negSucc size =>
      have written : (int (.negSucc size)).code.toList = '-' :: Nat.toDigits 10 (size + 1) := by
        rw [← Nat.toList_repr]
        exact String.toList_append
      rw [written]
      exact isMark_minus.divides (divides_number (size + 1)) (.inl rfl)

variable {value : Value}

theorem IsPlain.divides (plain : value.IsPlain)
    (closes : ∀ text ∈ value.strings, (rereadText? text).isSome = true) :
    Divides value.nesting value.code.toList value.reread.bareTokens := by
  induction plain with
  | none => exact divides_keyword (by decide) (by decide) (by decide)
  | auto => exact divides_keyword (by decide) (by decide) (by decide)
  | bool value => cases value <;> exact divides_keyword (by decide) (by decide) (by decide)
  | int value => exact divides_int value
  | str text => exact divides_str (closes text List.mem_cons_self)
  | @array items plain induction =>
      rw [strings, stringsOfItems_eq] at closes
      have each : ∀ item ∈ items, Divides (nestingOfItems items) item.code.toList
          item.reread.bareTokens := fun item member =>
        (induction item member fun text inside =>
          closes text (List.mem_flatMap.mpr ⟨item, member, inside⟩)).mono
            (Nat.le_of_lt_succ (nesting_lt_of_mem_items member))
      have group := (divides_joined each).group
      rwa [Value.reread, bareTokens, rereadItems_eq, tokensOfItems_eq, List.map_map,
        toList_code_array]
  | @dict entries distinct names plain induction =>
      by_cases empty : entries = []
      · subst empty
        exact (isMark_colon.divides divides_nil (.inl rfl)).group
      · rw [strings, stringsOfEntries_eq] at closes
        have each : ∀ entry ∈ entries, Divides (nestingOfEntries entries)
            (entry.1.toList ++ ':' :: ' ' :: entry.2.code.toList)
            ((.ident, entry.1) :: (.colon, ":") :: entry.2.reread.bareTokens) := by
          intro entry member
          have divides := (induction entry member fun text inside =>
            closes text (List.mem_flatMap.mpr ⟨entry, member, inside⟩)).mono
              (Nat.le_of_lt_succ (nesting_lt_of_mem_entries member))
          exact (divides_name (names entry member)).append
            (isMark_colon.divides divides (.inr rfl)) (.inr rfl)
        have group := (divides_intercalate each).group
        rwa [Value.reread, rereadEntries_eq, bareTokens_dict (by simpa using empty), List.map_map,
          toList_code_dict empty]

/-- The text of a value as code in parentheses, after a hash. -/
def embeddedCode (value : Value) : String :=
  "#(" ++ value.code ++ ")"

theorem IsPlain.tokenize_embeddedCode (plain : value.IsPlain)
    (closes : ∀ text ∈ value.strings, (rereadText? text).isSome = true)
    (fits : value.nesting < maxNesting) :
    ∃ tokens, tokenize value.embeddedCode = .ok tokens ∧
      tokens.tokens.map Token.bare = (.hash, "#") :: grouped value.reread.bareTokens := by
  have text : value.embeddedCode.toList = '#' :: '(' :: (value.code.toList ++ ')' :: []) := by
    simp [embeddedCode]
  exact tokenize_of_divides (plain.divides closes) fits text

end Value

end EquationMap
