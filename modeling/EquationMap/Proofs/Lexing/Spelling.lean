import EquationMap.Syntax.Lexeme

namespace EquationMap

/-- The contents of a string literal after its opening quote. The first quote that is not
escaped has to end the literal. -/
def decodeContents? : List Char → Option (List Char)
  | [] => none
  | '\\' :: c :: rest => (decodeContents? rest).map (Lexeme.unescaped c :: ·)
  | c :: rest =>
      if c = '"' then if rest.isEmpty then some [] else none
      else (decodeContents? rest).map (c :: ·)

def decodeLiteral? : List Char → Option (List Char)
  | '"' :: rest => decodeContents? rest
  | _ => none

/-- Whether a piece of a text is how a token of some kind writes a value: a quoted literal for
a string, a backslash and the character for an escape, and the value itself for all others. -/
def Spells (kind : TokenKind) (value source : List Char) : Prop :=
  match kind with
  | .string => decodeLiteral? source = some value
  | .escape => source = '\\' :: value
  | _ => source = value

/-- Kinds of tokens in a text that stand for their own source. -/
def TokenKind.isVerbatim : TokenKind → Bool
  | string | escape | eof => false
  | _ => true

theorem spells_self {kind : TokenKind} (verbatim : kind.isVerbatim = true) (source : List Char) :
    Spells kind source source := by
  cases kind <;> first | rfl | simp [TokenKind.isVerbatim] at verbatim

namespace Lexeme

/-- A lexeme that is a piece at the head of a text and spells the value of its token. -/
structure Heads (lexeme : Lexeme) (text : List Char) : Prop where
  nonempty : lexeme.source ≠ []
  isPrefix : lexeme.source <+: text
  spells : Spells lexeme.kind lexeme.value.toList lexeme.source
  inText : lexeme.kind ≠ .eof

theorem plain_heads {kind : TokenKind} {source text : List Char}
    (verbatim : kind.isVerbatim = true) (nonempty : source ≠ []) (isPrefix : source <+: text) :
    (plain kind source).Heads text where
  nonempty := nonempty
  isPrefix := isPrefix
  spells := by simpa [plain] using spells_self verbatim source
  inText := by
    intro isEnd
    change kind = .eof at isEnd
    subst kind
    contradiction

theorem plain_char_heads {kind : TokenKind} (verbatim : kind.isVerbatim = true) (c : Char)
    (rest : List Char) : (plain kind [c]).Heads (c :: rest) :=
  plain_heads verbatim (by simp) ⟨rest, rfl⟩

theorem takeWhile_cons_ne_nil {test : Char → Bool} {c : Char} (passes : test c = true)
    (rest : List Char) : (c :: rest).takeWhile test ≠ [] := by
  simp [passes]

theorem numberSource_isPrefix (text : List Char) : (numberSource text).1 <+: text := by
  unfold numberSource
  have split : text.takeWhile Text.isDigit ++ text.dropWhile Text.isDigit = text :=
    List.takeWhile_append_dropWhile
  split
  · rename_i rest dropped
    dsimp only
    split
    · exact List.takeWhile_prefix _
    · refine ⟨rest.dropWhile Text.isDigit, ?_⟩
      rw [List.append_assoc, List.cons_append, List.takeWhile_append_dropWhile, ← dropped, split]
  · exact List.takeWhile_prefix _

theorem numberSource_ne_nil {c : Char} (digit : Text.isDigit c = true) (rest : List Char) :
    (numberSource (c :: rest)).1 ≠ [] := by
  have whole : (c :: rest).takeWhile Text.isDigit ≠ [] := takeWhile_cons_ne_nil digit rest
  unfold numberSource
  split
  · dsimp only
    split
    · exact whole
    · simp
  · exact whole

theorem dottedSource_isPrefix : ∀ text : List Char, dottedSource text <+: text
  | [] => List.prefix_rfl
  | c :: rest => by
      have tail := List.prefix_cons_inj c |>.mpr (dottedSource_isPrefix rest)
      unfold dottedSource
      split
      · exact tail
      · split
        · exact tail
        · exact List.nil_prefix

theorem word_heads {c : Char} (letter : Text.isLetter c = true) (rest : List Char) :
    (word (c :: rest)).Heads (c :: rest) := by
  unfold word
  dsimp only
  split
  · exact plain_heads rfl (takeWhile_cons_ne_nil letter rest) (List.takeWhile_prefix _)
  · exact plain_heads rfl (by simp [dottedSource, letter]) (dottedSource_isPrefix _)

theorem leadingMark?_isPrefix {text : List Char} {table : List (String × α)} {mark : String}
    {meaning : α} (found : leadingMark? text table = some (mark, meaning)) :
    mark.toList <+: text ∧ (mark, meaning) ∈ table := by
  induction table with
  | nil => simp [leadingMark?] at found
  | cons entry table ih =>
      obtain ⟨other, otherMeaning⟩ := entry
      unfold leadingMark? at found
      split at found
      · rename_i leads
        cases found
        exact ⟨List.isPrefixOf_iff_prefix.mp leads, List.mem_cons_self⟩
      · obtain ⟨isPrefix, member⟩ := ih found
        exact ⟨isPrefix, List.mem_cons_of_mem _ member⟩

theorem lookup_mem [BEq α] [LawfulBEq α] {key : α} {value : β} {table : List (α × β)}
    (found : table.lookup key = some value) : (key, value) ∈ table := by
  obtain ⟨before, after, rfl, -⟩ := List.lookup_eq_some_iff.mp found
  simp

theorem shorthands_ne_empty : ∀ entry ∈ Token.shorthands, entry.1.toList ≠ [] := by
  decide

theorem mathMarks_verbatim : ∀ entry ∈ Token.mathMarks, entry.2.isVerbatim = true := by
  decide

theorem mark_heads (c : Char) (rest : List Char) : (mark c rest).Heads (c :: rest) := by
  unfold mark
  split
  · exact plain_char_heads rfl c rest
  · split
    · rename_i shorthand symbol found
      obtain ⟨isPrefix, member⟩ := leadingMark?_isPrefix found
      exact plain_heads rfl (shorthands_ne_empty _ member) isPrefix
    · apply plain_char_heads
      cases found : Token.mathMarks.lookup c with
      | none => rfl
      | some kind => exact mathMarks_verbatim _ (lookup_mem found)

theorem backslash_heads (rest : List Char) : (backslash rest).Heads ('\\' :: rest) := by
  cases rest with
  | nil => exact plain_char_heads rfl '\\' []
  | cons c rest =>
      unfold backslash
      dsimp only
      split
      · exact plain_char_heads rfl '\\' (c :: rest)
      · exact ⟨by simp, ⟨rest, rfl⟩, by simp [Spells], by simp⟩

theorem keywords_verbatim : ∀ entry ∈ Token.keywords, entry.2.isVerbatim = true := by
  decide

theorem isWordChar_of_startsName {c : Char} (starts : startsName c = true) :
    Text.isWordChar c = true := by
  simp only [startsName, Bool.or_eq_true] at starts
  rcases starts with letter | underscore
  · simp [Text.isWordChar, Text.isAlphanumeric, letter]
  · simp [Text.isWordChar, underscore]

theorem codeWord_heads {c : Char} (starts : startsName c = true) (rest : List Char) :
    (codeWord (c :: rest)).Heads (c :: rest) := by
  unfold codeWord
  apply plain_heads
  · cases found : Token.keywords.lookup
        (String.ofList ((c :: rest).takeWhile Text.isWordChar)) with
    | none => rfl
    | some kind => exact keywords_verbatim _ (lookup_mem found)
  · exact takeWhile_cons_ne_nil (isWordChar_of_startsName starts) rest
  · exact List.takeWhile_prefix _

theorem codeNumber_heads {c : Char} (digit : Text.isDigit c = true) (rest : List Char) :
    (codeNumber (c :: rest)).Heads (c :: rest) := by
  have verbatim : ∀ fractional : Bool,
      (if fractional then TokenKind.float else TokenKind.int).isVerbatim = true := by
    decide
  unfold codeNumber
  apply plain_heads
  · exact verbatim _
  · exact numberSource_ne_nil digit rest
  · exact numberSource_isPrefix _

theorem codeMarks_verbatim :
    ∀ entry ∈ Token.codeMarks, entry.2.isVerbatim = true ∧ entry.1.toList ≠ [] := by
  decide

theorem codeMark?_heads {text : List Char} {lexeme : Lexeme}
    (found : codeMark? text = some lexeme) : lexeme.Heads text := by
  unfold codeMark? at found
  obtain ⟨⟨mark, kind⟩, leads, rfl⟩ := Option.map_eq_some_iff.mp found
  obtain ⟨isPrefix, member⟩ := leadingMark?_isPrefix leads
  obtain ⟨verbatim, nonempty⟩ := codeMarks_verbatim _ member
  exact plain_heads verbatim nonempty isPrefix

theorem stringTail_isPrefix : ∀ text : List Char, (stringTail text).source <+: text := by
  intro text
  fun_induction stringTail text with
  | case1 => exact List.prefix_rfl
  | case2 c rest tail ih =>
      exact (List.prefix_cons_inj _).mpr ((List.prefix_cons_inj _).mpr ih)
  | case3 rest => exact ⟨rest, rfl⟩
  | case4 c rest _ _ tail ih => exact (List.prefix_cons_inj _).mpr ih

theorem decodeContents?_stringTail : ∀ text : List Char, (stringTail text).closed = true →
    decodeContents? (stringTail text).source = some (stringTail text).contents := by
  intro text
  fun_induction stringTail text with
  | case1 => simp
  | case2 c rest tail ih =>
      intro closed
      simp only [decodeContents?]
      rw [ih closed]
      rfl
  | case3 rest => intro _; rfl
  | case4 c rest notEscape notQuote tail ih =>
      intro closed
      have decoded := ih closed
      change decodeContents? (c :: tail.source) = some (c :: tail.contents)
      rw [decodeContents?, if_neg notQuote, decoded]
      · rfl
      · rintro d more rfl same
        cases rest with
        | nil => simp [tail, stringTail] at closed
        | cons e rest => exact notEscape e rest rfl rfl

theorem literal_heads {rest : List Char} (closed : (stringTail rest).closed = true) :
    (Lexeme.mk .string (String.ofList (stringTail rest).contents)
      ('"' :: (stringTail rest).source)).Heads ('"' :: rest) where
  nonempty := by simp
  isPrefix := (List.prefix_cons_inj _).mpr (stringTail_isPrefix rest)
  spells := by simpa [Spells, decodeLiteral?] using decodeContents?_stringTail rest closed
  inText := by simp

end Lexeme

end EquationMap
