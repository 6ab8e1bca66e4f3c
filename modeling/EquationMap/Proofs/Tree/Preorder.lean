import EquationMap.Proofs.Tree.Containment
import Mathlib.Data.List.Basic

namespace EquationMap

namespace Node

/-- A node and all that are reached from it, every node before its subexpressions and these in
their order. -/
def preorder (node : Node) : List Node :=
  node :: node.subexpressions.attach.flatMap fun expr => expr.1.preorder
termination_by node.subtree.length
decreasing_by exact length_subtree_lt expr.2

theorem preorder_eq (node : Node) :
    node.preorder = node :: node.subexpressions.flatMap preorder := by
  rw [preorder, List.flatMap_subtype (fun _ _ => rfl), List.unattach_attach]

theorem mem_preorder_iff {node inner : Node} :
    inner ∈ node.preorder ↔ node.Reaches inner := by
  constructor
  · intro member
    induction node using subexpression_induction with
    | step node ih =>
        rw [preorder_eq] at member
        rcases List.mem_cons.mp member with rfl | below
        · exact .here
        · obtain ⟨expr, direct, inside⟩ := List.mem_flatMap.mp below
          exact .through direct (ih expr direct inside)
  · intro reaches
    induction reaches with
    | here =>
        rw [preorder_eq]
        exact List.mem_cons_self
    | through direct _ inside =>
        rw [preorder_eq]
        exact List.mem_cons_of_mem _ (List.mem_flatMap.mpr ⟨_, direct, inside⟩)

end Node

namespace Entry

variable (resolver : Resolver) (text : List Char)

/-- The entry of a node, if the range of the node is known and ends in the text. -/
def ofNode? (node : Node) : Option Entry :=
  match resolver node.span with
  | none => none
  | some range =>
      if range.stop ≤ Text.byteLength text then
        some ⟨node.span, range, String.ofList (Text.slice text range.start range.stop)⟩
      else none

theorem add_eq (node : Node) (found : List Entry) :
    add resolver text node.span found =
      match ofNode? resolver text node with
      | none => found
      | some entry =>
          if found.any fun other => entry.range == other.range then found else entry :: found := by
  unfold add ofNode?
  cases resolver node.span with
  | none => rfl
  | some range =>
      by_cases inText : range.stop ≤ Text.byteLength text
      · have symmetric : (fun other : Entry => decide (other.range = range)) =
            fun other => range == other.range := by
          funext other
          rw [Bool.beq_eq_decide_eq, decide_eq_decide]
          exact eq_comm
        simp only [inText, true_and, if_true, symmetric]
        cases found.any fun other => range == other.range <;> rfl
      · simp only [inText, false_and, if_false]

theorem visit_eq_foldl_preorder (node : Node) (found : List Entry) :
    visit resolver text found node =
      node.preorder.foldl (fun found inner => add resolver text inner.span found) found := by
  induction node using Node.subexpression_induction generalizing found with
  | step node ih =>
      rw [visit_eq, Node.preorder_eq, List.foldl_cons, List.foldl_flatMap]
      exact List.foldl_ext _ _ _ fun found expr direct => ih expr direct found

theorem reverse_foldl_add (nodes : List Node) (found : List Entry) :
    (nodes.foldl (fun found inner => add resolver text inner.span found) found).reverse =
      List.eraseDupsBy.loop (fun a b => a.range == b.range)
        (nodes.filterMap (ofNode? resolver text)) found := by
  induction nodes generalizing found with
  | nil => rfl
  | cons node rest ih =>
      rw [List.foldl_cons, ih, add_eq, List.filterMap_cons]
      cases ofNode? resolver text node with
      | none => rfl
      | some entry =>
          rw [List.eraseDupsBy.loop]
          dsimp only
          cases found.any fun other => entry.range == other.range <;> rfl

end Entry

theorem Node.entries_eq (node : Node) (resolver : Resolver) (text : String) :
    node.entries resolver text =
      (node.preorder.filterMap (Entry.ofNode? resolver text.toList)).eraseDupsBy
        fun a b => a.range == b.range := by
  rw [entries, Entry.visit_eq_foldl_preorder, Entry.reverse_foldl_add]
  rfl

theorem ByteRange.eq_of_ends {a b : ByteRange} (start : a.start = b.start)
    (stop : a.stop = b.stop) : a = b := by
  cases a
  cases b
  cases start
  cases stop
  rfl

theorem Text.slice_whole (text : List Char) : slice text 0 (byteLength text) = text := by
  simpa using slice_of_append [] text []

/-- The first entry of the numbered tree of a text is the root with the whole text. -/
theorem Formula.entries_number {text : String} {formula numbered : Formula} {file : String}
    {numbers : SpanNumbers} {table : SpanTable} (parsed : Formula.ofText text = .ok formula)
    (made : formula.number file numbers = .ok (numbered, table)) :
    ∃ others, numbered.node.entries table.resolve text =
      ⟨numbered.place.span, ⟨0, Text.byteLength text.toList, Nat.zero_le _⟩, text⟩ :: others := by
  obtain ⟨-, root_start, root_stop⟩ := tidy_of_ofText parsed
  have whole : formula.node.range = ⟨0, Text.byteLength text.toList, Nat.zero_le _⟩ :=
    ByteRange.eq_of_ends root_start root_stop
  have root : Entry.ofNode? table.resolve text.toList numbered.node =
      some ⟨numbered.place.span, ⟨0, Text.byteLength text.toList, Nat.zero_le _⟩, text⟩ := by
    unfold Entry.ofNode?
    rw [resolve_root made, whole]
    simp [Text.slice_whole, Node.span, Formula.node, Node.place]
  rw [Node.entries_eq, Node.preorder_eq, List.filterMap_cons, root]
  exact ⟨_, List.eraseDupsBy_cons⟩

/-- The entries of a tree are those of the nodes reached from its root in preorder, whatever the
spans resolve to, without the ranges that stand there already. -/
theorem entries_list_preorder (node : Node) (resolver : Resolver) (text : String) :
    node.entries resolver text =
        (node.preorder.filterMap (Entry.ofNode? resolver text.toList)).eraseDupsBy
          (fun a b => a.range == b.range) ∧
      (∀ inner, inner ∈ node.preorder ↔ node.Reaches inner) ∧
      ((node.entries resolver text).map Entry.range).Nodup ∧
      (∀ inner range, node.Reaches inner → resolver inner.span = some range →
        range.stop ≤ Text.byteLength text.toList →
        ∃ entry ∈ node.entries resolver text, entry.range = range) ∧
      ∀ formula numbered file numbers table, Formula.ofText text = .ok formula →
        formula.number file numbers = .ok (numbered, table) →
        ∃ others, numbered.node.entries table.resolve text =
          ⟨numbered.place.span, ⟨0, Text.byteLength text.toList, Nat.zero_le _⟩, text⟩ ::
            others := by
  refine ⟨node.entries_eq resolver text, fun inner => Node.mem_preorder_iff, ?_, ?_, ?_⟩
  · exact List.pairwise_map.mpr Node.entries_distinct
  · intro inner range reaches resolved inText
    exact Node.exists_entry_of_reached reaches resolved inText
  · intro formula numbered file numbers table parsed made
    exact Formula.entries_number parsed made

end EquationMap
