import EquationMap.Proofs.Tree.Nesting
import Mathlib.Data.List.Pairwise

namespace EquationMap

variable {IsEnd : Nat → Prop}

/-- Whether one node is reached from another by going from nodes to subexpressions. -/
inductive Node.Reaches : Node → Node → Prop
  | here {node : Node} : Node.Reaches node node
  | through {node expr inner : Node} (direct : expr ∈ node.subexpressions)
      (reaches : Node.Reaches expr inner) : Node.Reaches node inner

namespace Node

theorem exists_part_of_subexpression {node expr : Node} (direct : expr ∈ node.subexpressions) :
    ∃ inner ∈ node.parts, .node expr ∈ inner.subtree := by
  have part {inner : Node} (isPart : .node inner ∈ node.parts) (same : expr = inner) :
      ∃ inner ∈ node.parts, .node expr ∈ inner.subtree :=
    ⟨.node inner, isPart, same ▸ TreePart.mem_subtree_self _⟩
  have body (exprs : List Node) (place : Place) (isPart : .node (math exprs place) ∈ node.parts)
      (member : expr ∈ exprs) : ∃ inner ∈ node.parts, .node expr ∈ inner.subtree := by
    refine ⟨_, isPart, ?_⟩
    exact TreePart.subtree_subset _ (List.mem_map_of_mem member) (TreePart.mem_subtree_self _)
  -- Between a node and its subexpressions stand bodies, spreads, pairs and lists of arguments.
  cases node with
  | math exprs place => exact part (List.mem_map_of_mem direct) rfl
  | delimited opening exprs bodyPlace closing place =>
      exact body exprs bodyPlace (by simp [parts]) direct
  | contentBlock exprs bodyPlace place => exact body exprs bodyPlace (by simp [parts]) direct
  | array items place =>
      obtain ⟨item, isItem, rfl⟩ := List.mem_map.mp direct
      refine ⟨.node item, List.mem_map_of_mem isItem, ?_⟩
      cases item with
      | spread inner place =>
          exact TreePart.subtree_subset _ List.mem_cons_self (TreePart.mem_subtree_self _)
      | _ => exact TreePart.mem_subtree_self _
  | dict items place =>
      obtain ⟨item, isItem, inPair⟩ := List.mem_flatMap.mp direct
      refine ⟨.node item, List.mem_map_of_mem isItem, ?_⟩
      have isPart : .node expr ∈ item.parts := by
        cases item <;> simp [pairExprs, parts] at inPair ⊢ <;> exact inPair
      exact TreePart.subtree_subset _ isPart (TreePart.mem_subtree_self _)
  | call callee args argsPlace place =>
      rcases List.mem_cons.mp direct with rfl | isArg
      · exact part List.mem_cons_self rfl
      · refine ⟨.arguments args argsPlace, by simp [parts], ?_⟩
        have isPart : .node expr ∈ args.map TreePart.node :=
          List.mem_map_of_mem (List.mem_filter.mp isArg).1
        exact TreePart.subtree_subset (.arguments args argsPlace) isPart
          (TreePart.mem_subtree_self _)
  | attach base bottom top marks place =>
      refine part ?_ rfl
      simp only [subexpressions, List.mem_cons, List.mem_append, Option.mem_toList] at direct
      simp only [parts, List.cons_append, List.mem_cons, List.mem_append, List.mem_map,
        Option.mem_toList]
      rcases direct with rfl | isBottom | isTop
      · exact .inl rfl
      · exact .inr (.inl (.inl ⟨expr, isBottom, rfl⟩))
      · exact .inr (.inl (.inr ⟨expr, isTop, rfl⟩))
  | frac num denom place =>
      refine part ?_ rfl
      simpa [subexpressions, parts] using direct
  | binary lhs op rhs place =>
      refine part ?_ rfl
      simpa [subexpressions, parts] using direct
  | root degree inner place => exact part List.mem_cons_self (List.mem_singleton.mp direct)
  | parenthesized inner place => exact part List.mem_cons_self (List.mem_singleton.mp direct)
  | unary op inner place => exact part List.mem_cons_self (List.mem_singleton.mp direct)
  | _ => cases direct

theorem length_subtree_lt {node expr : Node} (direct : expr ∈ node.subexpressions) :
    expr.subtree.length < node.subtree.length := by
  obtain ⟨inner, isPart, inside⟩ := exists_part_of_subexpression direct
  have smaller : expr.subtree.length ≤ inner.subtree.length :=
    (TreePart.subtree_sublist inside).length_le
  have larger : inner.subtree.length ≤ (node.parts.flatMap TreePart.subtree).length :=
    (List.sublist_flatten_of_mem (List.mem_map_of_mem isPart)).length_le
  have whole := congrArg List.length (TreePart.node node).subtree_eq
  simp only [List.length_cons, TreePart.parts] at whole
  change node.subtree.length = _ at whole
  omega

theorem subexpression_induction {motive : Node → Prop}
    (step : ∀ node, (∀ expr ∈ node.subexpressions, motive expr) → motive node) (node : Node) :
    motive node := by
  induction size : node.subtree.length using Nat.strongRecOn generalizing node with
  | ind length ih =>
      exact step node fun expr direct =>
        ih expr.subtree.length (size ▸ length_subtree_lt direct) expr rfl

theorem Reaches.mem_subtree {node inner : Node} (reaches : node.Reaches inner) :
    .node inner ∈ node.subtree := by
  induction reaches with
  | here => exact TreePart.mem_subtree_self (.node _)
  | @through node expr inner direct _ ih =>
      obtain ⟨part, isPart, inside⟩ := exists_part_of_subexpression direct
      have inPart := (TreePart.subtree_sublist inside).subset ih
      exact TreePart.subtree_subset (.node node) isPart inPart

theorem Tidy.contains {node : Node} (tidy : node.Tidy IsEnd) :
    ∀ part ∈ node.subtree, node.range.contains part.range = true := by
  have whole (outer : TreePart) : (∀ part ∈ outer.subtree, part.Tidy IsEnd) →
      ∀ part ∈ outer.subtree, outer.range.contains part.range = true := by
    induction outer using TreePart.induction with
    | step outer ih =>
        intro tidy part member
        have here := tidy outer outer.mem_subtree_self
        rw [outer.subtree_eq] at member
        rcases List.mem_cons.mp member with rfl | below
        · exact ByteRange.contains_self _
        · obtain ⟨inner, direct, inside⟩ := List.mem_flatMap.mp below
          refine ByteRange.contains_trans (here.inside inner direct)
            (ih inner direct ?_ part inside)
          intro deeper isDeeper
          exact tidy deeper (outer.subtree_subset direct isDeeper)
  exact whole (.node node) tidy

theorem Tidy.of_mem {node inner : Node} (tidy : node.Tidy IsEnd)
    (member : .node inner ∈ (TreePart.node node).subtree) : inner.Tidy IsEnd :=
  fun part inside => tidy part ((TreePart.subtree_sublist member).subset inside)

theorem Tidy.contains_reached {node inner : Node} (tidy : node.Tidy IsEnd)
    (reaches : node.Reaches inner) : node.range.contains inner.range = true :=
  tidy.contains _ reaches.mem_subtree

end Node

/-- Ranges one of which lies in the other one, or that lie apart. -/
def ByteRange.Nested (a b : ByteRange) : Prop :=
  a.contains b = true ∨ b.contains a = true ∨ a.Apart b

/-- Any two nodes that are reached in a tidy tree lie inside each other or apart. -/
theorem Node.Tidy.nested {node a b : Node} (tidy : node.Tidy IsEnd) (left : node.Reaches a)
    (right : node.Reaches b) : a.range.Nested b.range := by
  induction left with
  | here => exact .inl (tidy.contains_reached right)
  | @through node first a first_direct first_reaches ih =>
      cases right with
      | here =>
          exact .inr (.inl (tidy.contains_reached (.through first_direct first_reaches)))
      | @through _ second _ second_direct second_reaches =>
          have first_tidy := tidy.of_mem (Reaches.mem_subtree (.through first_direct .here))
          have second_tidy := tidy.of_mem (Reaches.mem_subtree (.through second_direct .here))
          by_cases same : first = second
          · subst same
            exact ih first_tidy second_reaches
          · have symmetric : Std.Symm fun a b : Node => a.range.Apart b.range :=
              ⟨fun _ _ apart => apart.symm⟩
            have apart : first.range.Apart second.range :=
              tidy.here.apart.forall first_direct second_direct same
            exact .inr (.inr (apart.inside (first_tidy.contains_reached first_reaches)
              (second_tidy.contains_reached second_reaches)))

end EquationMap
