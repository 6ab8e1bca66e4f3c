import EquationMap.Proofs.Literals.Parsing

namespace EquationMap

/-! Reading back the code of values. Quotes in strings are escaped and backslashes are not, so a
value comes back as it is just if its strings hold no backslash. -/

open Grammar

/-- Whether a text is a formula of a single expression that has a value. -/
def ReadsAs (text : String) (value : Value) : Prop :=
  ∃ formula node, Formula.ofText text = .ok formula ∧ formula.exprs = [node] ∧ node.Gives value

theorem Node.Gives.unique {node : Node} {value other : Value} (gives : node.Gives value)
    (gives_other : node.Gives other) : other = value := by
  have same := (gives.ends [] false).2.symm.trans (gives_other.ends [] false).2
  exact (Except.ok.inj same).symm

theorem ReadsAs.unique {text : String} {value other : Value} (reads : ReadsAs text value)
    (reads_other : ReadsAs text other) : other = value := by
  obtain ⟨formula, node, read, alone, gives⟩ := reads
  obtain ⟨formula_other, node_other, read_other, alone_other, gives_other⟩ := reads_other
  cases read.symm.trans read_other
  cases alone.symm.trans alone_other
  exact gives.unique gives_other

/-- A group after a hash is a formula of its own if it nests no deeper than it may. -/
theorem ReadsAs.of_group {text : String} {value : Value} {tokens : TokenList} {bound : Nat}
    {bare : List (TokenKind × String)} (reads : ReadsGroup bound bare value)
    (tokenized : tokenize text = .ok tokens)
    (same : tokens.tokens.map Token.bare = (.hash, "#") :: Value.grouped bare)
    (fits : bound < maxNesting) : ReadsAs text value := by
  obtain ⟨tokens, last⟩ := tokens
  obtain ⟨hash, others, rfl, isHash, same⟩ := List.map_eq_cons_iff.mp same
  obtain ⟨opening, others, rfl, isOpening, same⟩ := List.map_eq_cons_iff.mp same
  obtain ⟨inner, final, rfl, same_inner, same_last⟩ := List.map_eq_append_iff.mp same
  obtain ⟨closing, others, rfl, isClosing, none_left⟩ := List.map_eq_cons_iff.mp same_last
  have none_left : others = [] := List.map_eq_nil_iff.mp none_left
  subst none_left
  have inOrder := TokenList.inOrder_of_tokenize tokenized
  have isEnd : last.kind = .eof := congrArg Token.kind inOrder.last
  -- The token at the end is not read with the group: it is no call, script, prime or slash.
  have noTail : EndsOperand last := by
    unfold EndsOperand
    simp [isEnd]
  have noScripts : LeavesScripts none last := by
    intro side ofKind
    rw [isEnd] at ofKind
    cases ofKind
  have noPrime : last.kind ≠ .prime ∧ last.kind ≠ .slash := by
    rw [isEnd]
    exact ⟨nofun, nofun⟩
  obtain ⟨node, needed, le, gives, needs⟩ :=
    reads opening closing inner last [] [] (Token.kind_of_bare isClosing) same_inner
  have whole : Needs (fun levels => fraction (phrase levels) []) (needed + 1)
      ⟨hash, (opening :: (inner ++ [closing])) ++ [last], []⟩ node ⟨last, [], []⟩ := by
    rw [List.cons_append, List.append_assoc]
    exact needs_fraction noPrime.2 (needs_attachment noPrime.1 (needs_embedded
      (Token.kind_of_bare isHash) (Token.kind_of_bare isOpening) noTail needs)
      (needs_no_scripts noScripts))
  have split : (⟨hash :: opening :: (inner ++ [closing]), last⟩ : TokenList).tokens =
      hash :: opening :: (inner ++ [closing]) := rfl
  obtain ⟨range, read⟩ :=
    Formula.ofTokens_of_needs split (inOrder.inText hash List.mem_cons_self) isEnd whole
  rw [if_pos (by omega)] at read
  have ofText : Formula.ofText text = .ok ⟨[node], ⟨.between 0 last.range.stop, .detached⟩⟩ := by
    rw [Formula.ofText, tokenized]
    exact read
  exact ⟨_, node, ofText, rfl, gives⟩

namespace Value

variable {value : Value}

/-- A value as code in parentheses, after a hash, unless one of its integers is too long. -/
def embedded (value : Value) : Except NumberFault String := do
  return "#(" ++ (← value.toCode) ++ ")"

theorem embedded_of_isWritable (writable : value.IsWritable) :
    value.embedded = .ok value.embeddedCode := by
  rw [embedded, toCode_of_isWritable writable]
  rfl

theorem embedded_of_not_isWritable (unwritable : ¬value.IsWritable) :
    value.embedded = .error .integerTooLong := by
  rw [embedded, toCode_of_not_isWritable unwritable]
  rfl

/-- What the code of a value is read as, if every literal of a string ends where it should. -/
theorem IsPlain.readsAs_reread (plain : value.IsPlain) (shallow : value.nesting + 3 ≤ maxNesting)
    (writable : value.IsWritable)
    (closes : ∀ text ∈ value.strings, (rereadText? text).isSome = true) :
    ReadsAs value.embeddedCode value.reread := by
  obtain ⟨tokens, tokenized, same⟩ := plain.tokenize_embeddedCode closes (by omega)
  refine .of_group (plain.reread.readsValue writable.reread).readsGroup tokenized same ?_
  rw [nesting_reread]
  omega

theorem isSome_rereadText? {text : String} (noBackslash : '\\' ∉ text.toList) :
    (rereadText? text).isSome = true := by
  rw [rereadText?_of_no_backslash noBackslash, Option.isSome_some]

end Value

/-- A value has a code unless one of its integers is too long. The code of a value without a
backslash in its strings, embedded in a formula, is read and evaluated as the same value. Where
strings hold backslashes, but none that takes the place of a closing quote or leaves a quote
unescaped, the code is read as one value too, but never as the same one. -/
theorem literals_read_back {value : Value} (plain : value.IsPlain)
    (shallow : value.nesting + 3 ≤ maxNesting) :
    (¬value.IsWritable → value.embedded = .error .integerTooLong) ∧
    (value.IsWritable → ∃ text, value.embedded = .ok text ∧
      ((∀ string ∈ value.strings, '\\' ∉ string.toList) → ReadsAs text value) ∧
      ((∀ string ∈ value.strings, (Value.rereadText? string).isSome = true) →
        ∀ other, ReadsAs text other ↔ other = value.reread)) ∧
    (value.reread = value ↔ ∀ string ∈ value.strings, '\\' ∉ string.toList) := by
  have same_iff := plain.reread_eq_self_iff
  refine ⟨Value.embedded_of_not_isWritable, fun writable => ?_, same_iff⟩
  refine ⟨_, Value.embedded_of_isWritable writable, fun noBackslash => ?_, fun closes other => ?_⟩
  · have reads := plain.readsAs_reread shallow writable fun string inside =>
      Value.isSome_rereadText? (noBackslash string inside)
    rwa [same_iff.mpr noBackslash] at reads
  · have reads := plain.readsAs_reread shallow writable closes
    constructor
    · exact reads.unique
    · rintro rfl
      exact reads

/-- A negative number and a lone string with quotes, under their keys. -/
def Value.sample : Value :=
  .dict [("n", .int (-12)), ("says", .array [.str "a \"b\""])]

theorem Value.isPlain_sample : sample.IsPlain := by
  have first : IsCodeName "n" := ⟨⟨'n', [], rfl, by decide, nofun⟩, by decide⟩
  have second : IsCodeName "says" :=
    ⟨⟨'s', ['a', 'y', 's'], rfl, by decide, List.all_eq_true.mp (by decide)⟩, by decide⟩
  have names : ∀ entry ∈ [("n", Value.int (-12)), ("says", .array [.str "a \"b\""])],
      IsCodeName entry.1 :=
    List.forall_mem_cons.mpr ⟨first, List.forall_mem_cons.mpr ⟨second, nofun⟩⟩
  have text : ∀ item ∈ [Value.str "a \"b\""], item.IsPlain :=
    List.forall_mem_cons.mpr ⟨.str _, nofun⟩
  exact .dict (by decide) names
    (List.forall_mem_cons.mpr ⟨.int _, List.forall_mem_cons.mpr ⟨.array text, nofun⟩⟩)

theorem literals_read_back_of_sample :
    ∃ text, Value.sample.embedded = .ok text ∧ text = "#((n: -12, says: (\"a \\\"b\\\"\",)))" ∧
      ReadsAs text Value.sample := by
  have writable : Value.sample.IsWritable := by
    decide +kernel
  have noBackslash : ∀ text ∈ Value.sample.strings, '\\' ∉ text.toList := by
    decide
  obtain ⟨-, reads, -⟩ := literals_read_back Value.isPlain_sample (by decide)
  obtain ⟨text, written, reads, -⟩ := reads writable
  refine ⟨text, written, ?_, reads noBackslash⟩
  cases written.symm.trans (Value.embedded_of_isWritable writable)
  decide +kernel

/-- A string of a single backslash is written as a literal that does not end. -/
theorem literal_not_read_back_of_backslash :
    (Value.array [.str "\\"]).IsPlain ∧ (Value.array [.str "\\"]).nesting ≤ 16 ∧
      ∃ text, (Value.array [.str "\\"]).embedded = .ok text ∧
        ¬ReadsAs text (.array [.str "\\"]) := by
  refine ⟨.array (List.forall_mem_cons.mpr ⟨.str _, nofun⟩), by decide, _,
    Value.embedded_of_isWritable (by decide), ?_⟩
  rintro ⟨formula, node, read, -, -⟩
  have refused :
      (Formula.ofText (Value.array [.str "\\"]).embeddedCode).toOption.isNone = true := by
    decide +kernel
  rw [read] at refused
  cases refused

end EquationMap
