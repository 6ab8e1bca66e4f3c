import EquationMap.Proofs.Lexing.Coverage
import EquationMap.Proofs.Parsing.Soundness
import EquationMap.Proofs.Tree.Entries
import EquationMap.Proofs.Tree.Numbering
import EquationMap.Proofs.Tree.Placed

namespace EquationMap

open Text

theorem TokenList.InOrder.laid {text : List Char} {tokens : TokenList}
    (inOrder : tokens.InOrder text) : Laid (IsBoundary text) 0 tokens.toList :=
  .of_ordered inOrder.ordered inOrder.boundaries

namespace Formula

variable {text : String} {formula : Formula}

theorem exists_tokens_of_ofText (read : Formula.ofText text = .ok formula) :
    ∃ tokens, tokenize text = .ok tokens ∧ Formula.ofTokens tokens = .ok formula := by
  unfold Formula.ofText at read
  split at read
  · rename_i tokens tokenized
    exact ⟨tokens, tokenized, read⟩
  · cases read

theorem tidy_of_ofText (read : Formula.ofText text = .ok formula) :
    formula.node.Tidy (IsBoundary text.toList) ∧ formula.place.range.start = 0 ∧
      formula.place.range.stop = byteLength text.toList := by
  obtain ⟨tokens, tokenized, read⟩ := exists_tokens_of_ofText read
  have inOrder := TokenList.inOrder_of_tokenize tokenized
  have isEnd : tokens.last.kind = .eof := by
    rw [inOrder.last]
  obtain ⟨written, place⟩ := Formula.written_of_ofTokens inOrder.inText isEnd read
  have last_stop : tokens.last.range.stop = byteLength text.toList := by
    rw [inOrder.last]
    rfl
  obtain ⟨row, before_last, -⟩ := written.placed inOrder.laid
  have last_ordered := tokens.last.range.ordered
  have stop : formula.place.range.stop = byteLength text.toList := by
    rw [place]
    change max 0 tokens.last.range.stop = _
    rw [last_stop, Nat.zero_max]
  have start : formula.place.range.start = 0 := by
    rw [place]
    rfl
  refine ⟨row.math_tidy ?_ ?_ ?_ ?_, start, stop⟩
  · exact Nat.le_of_eq start
  · omega
  · rw [start]
    exact isBoundary_zero _
  · rw [stop]
    exact isBoundary_end _

end Formula

/-- Whether the byte at an offset lies in a range. -/
def ByteRange.Holds (range : ByteRange) (offset : Nat) : Prop :=
  range.start ≤ offset ∧ offset < range.stop

theorem exists_innermost {entries : List Entry}
    (nested : ∀ a ∈ entries, ∀ b ∈ entries, a.range.Nested b.range) {offset : Nat}
    {entry : Entry} (member : entry ∈ entries) (holds : entry.range.Holds offset) :
    ∃ inner ∈ entries, inner.range.Holds offset ∧
      ∀ other ∈ entries, other.range.Holds offset → other.range.contains inner.range = true := by
  -- On the length of a range that holds the offset.
  induction length : entry.range.length using Nat.strongRecOn generalizing entry with
  | ind length ih =>
      by_cases innermost : ∀ other ∈ entries, other.range.Holds offset →
          other.range.contains entry.range = true
      · exact ⟨entry, member, holds, innermost⟩
      · simp only [not_forall] at innermost
        obtain ⟨other, isEntry, other_holds, notAround⟩ := innermost
        -- The other range cannot be apart, so it lies inside and is shorter.
        have shorter : other.range.length < entry.range.length := by
          unfold ByteRange.Holds at holds other_holds
          unfold ByteRange.length
          rw [ByteRange.contains_iff] at notAround
          rcases nested entry member other isEntry with inside | around | apart
          · rw [ByteRange.contains_iff] at inside
            omega
          · rw [ByteRange.contains_iff] at around
            omega
          · unfold ByteRange.Apart at apart
            omega
        exact ih _ (length ▸ shorter) isEntry other_holds rfl

theorem ByteRange.eq_of_contains {a b : ByteRange} (left : a.contains b = true)
    (right : b.contains a = true) : a = b := by
  rw [ByteRange.contains_iff] at left right
  obtain ⟨a_start, a_stop, _⟩ := a
  obtain ⟨b_start, b_stop, _⟩ := b
  simp only [ByteRange.mk.injEq] at *
  omega

theorem Node.entry_eq_of_range {node : Node} {resolver : Resolver} {text : String} {a b : Entry}
    (left : a ∈ node.entries resolver text) (right : b ∈ node.entries resolver text)
    (same : a.range = b.range) : a = b := by
  by_contra different
  have symmetric : Std.Symm fun a b : Entry => a.range ≠ b.range :=
    ⟨fun _ _ apart => apart.symm⟩
  exact Node.entries_distinct.forall left right different same

section

variable {text : String} {formula numbered : Formula} {file : String} {numbers : SpanNumbers}
  {table : SpanTable}

/-- Every entry of a numbered tree has the range of a node that is reached in the tree. -/
theorem Formula.exists_reached_of_entry
    (made : formula.number file numbers = .ok (numbered, table)) {entry : Entry}
    (member : entry ∈ numbered.node.entries table.resolve text) :
    ∃ inner, formula.node.Reaches inner ∧ entry.range = inner.range := by
  obtain ⟨-, tree, -⟩ := Formula.number_eq made
  obtain ⟨inner, reaches, resolved⟩ := Node.exists_reached_of_entry member
  have own := Formula.number_resolves made reaches.mem_subtree
  have same : entry.range = inner.range := Option.some.inj (resolved.symm.trans own)
  rw [tree] at reaches
  obtain ⟨original, number, found, rfl⟩ := Node.Reaches.of_respan _ reaches
  exact ⟨original, found, by rw [same, Node.range_respan]⟩

theorem Formula.resolve_root (made : formula.number file numbers = .ok (numbered, table)) :
    table.resolve numbered.node.span = some formula.node.range := by
  obtain ⟨-, tree, -⟩ := Formula.number_eq made
  have range : numbered.node.range = formula.node.range := by
    rw [tree, Node.range_respan]
  rw [← range]
  exact Formula.number_resolves made Node.Reaches.here.mem_subtree

theorem Formula.exists_root_entry
    (made : formula.number file numbers = .ok (numbered, table))
    (inText : formula.node.range.stop ≤ byteLength text.toList) :
    ∃ entry ∈ numbered.node.entries table.resolve text, entry.range = formula.node.range :=
  Node.exists_entry_of_reached .here (Formula.resolve_root made) inText

/-- The entries of a numbered tree lie inside each other or apart if the tree is tidy. -/
theorem Formula.entries_nested {IsEnd : Nat → Prop} (tidy : formula.node.Tidy IsEnd)
    (made : formula.number file numbers = .ok (numbered, table)) :
    ∀ a ∈ numbered.node.entries table.resolve text,
      ∀ b ∈ numbered.node.entries table.resolve text, a.range.Nested b.range := by
  intro a left b right
  obtain ⟨first, first_reached, first_range⟩ := Formula.exists_reached_of_entry made left
  obtain ⟨second, second_reached, second_range⟩ := Formula.exists_reached_of_entry made right
  rw [first_range, second_range]
  exact tidy.nested first_reached second_reached

end

/-- Every part of the tree of a text lies in the text between characters and holds the parts
directly below it, and the subexpressions of a node lie apart from each other. So the entries
of the numbered tree lie inside each other or apart, and at every byte one is innermost. -/
theorem ranges_nested_of_ofText (text : String) (formula : Formula)
    (read : Formula.ofText text = .ok formula) :
    (∀ part ∈ formula.node.subtree,
      part.range.stop ≤ byteLength text.toList ∧
      IsBoundary text.toList part.range.start ∧ IsBoundary text.toList part.range.stop ∧
      (∀ inner ∈ part.parts, part.range.contains inner.range = true) ∧
      part.subexpressions.Pairwise fun a b => a.range.Apart b.range) ∧
    ∀ file numbers numbered table,
      formula.number file numbers = .ok (numbered, table) →
      (∀ a ∈ numbered.node.entries table.resolve text,
        ∀ b ∈ numbered.node.entries table.resolve text, a.range.Nested b.range) ∧
      ∀ offset, offset < byteLength text.toList →
        ∃ entry ∈ numbered.node.entries table.resolve text, entry.range.Holds offset ∧
          ∀ other ∈ numbered.node.entries table.resolve text, other.range.Holds offset →
            other.range.contains entry.range = true ∧
              (entry.range.contains other.range = true → other = entry) := by
  obtain ⟨tidy, root_start, root_stop⟩ := Formula.tidy_of_ofText read
  constructor
  · intro part member
    have inRoot := ByteRange.contains_iff.mp (tidy.contains part member)
    have root : formula.node.range.stop = byteLength text.toList := root_stop
    have here := tidy part member
    exact ⟨by omega, here.start, here.stop, here.inside, here.apart⟩
  · intro file numbers numbered table made
    have nested : ∀ a ∈ numbered.node.entries table.resolve text,
        ∀ b ∈ numbered.node.entries table.resolve text, a.range.Nested b.range :=
      Formula.entries_nested tidy made
    refine ⟨nested, ?_⟩
    intro offset inText
    obtain ⟨root, isEntry, root_range⟩ :=
      Formula.exists_root_entry made (Nat.le_of_eq root_stop)
    have holds : root.range.Holds offset := by
      rw [root_range]
      exact ⟨Nat.le_trans (Nat.le_of_eq root_start) (Nat.zero_le _),
        Nat.lt_of_lt_of_eq inText root_stop.symm⟩
    obtain ⟨entry, member, entry_holds, innermost⟩ := exists_innermost nested isEntry holds
    refine ⟨entry, member, entry_holds, ?_⟩
    intro other isOther other_holds
    have around := innermost other isOther other_holds
    refine ⟨around, fun inside => ?_⟩
    exact Node.entry_eq_of_range isOther member (ByteRange.eq_of_contains around inside)

/-- A call with a named argument between its rows, with scripts of which one is a call in code
with a spread and an attached block. -/
theorem ranges_nested_of_rows :
    ∃ formula numbered table,
      Formula.ofText "f(a, x: b; √c)_1^#g((1, ..h))[y]" = .ok formula ∧
      formula.number "main" .full = .ok (numbered, table) ∧
      formula.node.subtree.length = 26 ∧
      (∀ part ∈ formula.node.subtree,
        ∀ inner ∈ part.parts, part.range.contains inner.range = true) ∧
      ∀ a ∈ numbered.node.entries table.resolve "f(a, x: b; √c)_1^#g((1, ..h))[y]",
        ∀ b ∈ numbered.node.entries table.resolve "f(a, x: b; √c)_1^#g((1, ..h))[y]",
          a.range.Nested b.range := by
  have evaluated : ((Formula.ofText "f(a, x: b; √c)_1^#g((1, ..h))[y]").toOption.any
      fun formula => formula.node.subtree.length = 26 &&
        (formula.number "main" .full).toOption.isSome) = true := by
    decide +kernel
  cases read : Formula.ofText "f(a, x: b; √c)_1^#g((1, ..h))[y]" with
  | error failure =>
      rw [read] at evaluated
      cases evaluated
  | ok formula =>
      rw [read] at evaluated
      obtain ⟨count, hasNumbers⟩ := Bool.and_eq_true_iff.mp evaluated
      cases made : formula.number "main" .full with
      | error reason =>
          rw [made] at hasNumbers
          cases hasNumbers
      | ok result =>
          obtain ⟨numbered, table⟩ := result
          obtain ⟨tree, entries⟩ := ranges_nested_of_ofText _ formula read
          refine ⟨formula, numbered, table, rfl, made, of_decide_eq_true count, ?_, ?_⟩
          · intro part member
            exact (tree part member).2.2.2.1
          · exact (entries "main" .full numbered table made).1

end EquationMap
