import EquationMap.Proofs.Tree.Parts

namespace EquationMap

namespace ByteRange

theorem contains_iff {outer inner : ByteRange} :
    outer.contains inner = true ↔ outer.start ≤ inner.start ∧ inner.stop ≤ outer.stop := by
  simp [contains]

theorem contains_self (range : ByteRange) : range.contains range = true :=
  contains_iff.mpr ⟨Nat.le_refl _, Nat.le_refl _⟩

theorem contains_trans {outer middle inner : ByteRange} (left : outer.contains middle = true)
    (right : middle.contains inner = true) : outer.contains inner = true := by
  rw [contains_iff] at *
  omega

/-- Whether one of two ranges ends before the other one starts. -/
def Apart (a b : ByteRange) : Prop :=
  a.stop ≤ b.start ∨ b.stop ≤ a.start

theorem Apart.symm {a b : ByteRange} (apart : Apart a b) : Apart b a :=
  Or.symm apart

theorem Apart.inside {a b inA inB : ByteRange} (apart : Apart a b)
    (left : a.contains inA = true) (right : b.contains inB = true) : Apart inA inB := by
  rw [contains_iff] at *
  unfold Apart at *
  omega

end ByteRange

namespace Node

def isPositional : Node → Bool
  | named _ _ _ | spread _ _ => false
  | _ => true

/-- What an item of an array puts into it. -/
def unspread : Node → Node
  | spread expr _ => expr
  | item => item

/-- The expressions of an item of a dictionary. -/
def pairExprs : Node → List Node
  | keyed key expr _ => [key, expr]
  | named _ expr _ | spread expr _ => [expr]
  | _ => []

/-- The subexpressions directly below a node. Fields, and the named and spread arguments of
calls, are none. -/
def subexpressions : Node → List Node
  | math exprs _ => exprs
  | frac num denom _ => [num, denom]
  | attach base bottom top _ _ => base :: (bottom.toList ++ top.toList)
  | root _ expr _ | parenthesized expr _ | unary _ expr _ => [expr]
  | delimited _ body _ _ _ => body
  | call callee args _ _ => callee :: args.filter isPositional
  | array items _ => items.map unspread
  | dict items _ => items.flatMap pairExprs
  | contentBlock body _ _ => body
  | binary lhs _ rhs _ => [lhs, rhs]
  | _ => []

end Node

def TreePart.subexpressions : TreePart → List Node
  | .node tree => tree.subexpressions
  | .arguments _ _ => []

/-- A part whose ends are of the given kind, with the parts directly below it inside and its
subexpressions apart from each other. -/
structure TreePart.Tidy (IsEnd : Nat → Prop) (part : TreePart) : Prop where
  start : IsEnd part.range.start
  stop : IsEnd part.range.stop
  inside : ∀ inner ∈ part.parts, part.range.contains inner.range = true
  apart : part.subexpressions.Pairwise fun a b => a.range.Apart b.range
  pair : ∀ {key expr place}, part = .node (.keyed key expr place) → key.range.Apart expr.range

def Node.Tidy (IsEnd : Nat → Prop) (node : Node) : Prop :=
  ∀ part ∈ node.subtree, part.Tidy IsEnd

variable {IsEnd : Nat → Prop}

theorem Node.tidy_of_parts {node : Node} (here : (TreePart.node node).Tidy IsEnd)
    (below : ∀ inner ∈ node.parts, ∀ part ∈ inner.subtree, part.Tidy IsEnd) :
    node.Tidy IsEnd := by
  intro part member
  change part ∈ (TreePart.node node).subtree at member
  rw [TreePart.subtree_eq] at member
  rcases List.mem_cons.mp member with rfl | inside
  · exact here
  · obtain ⟨inner, direct, inside⟩ := List.mem_flatMap.mp inside
    exact below inner direct part inside

theorem Node.Tidy.here {node : Node} (tidy : node.Tidy IsEnd) :
    (TreePart.node node).Tidy IsEnd :=
  tidy _ (TreePart.node node).mem_subtree_self

end EquationMap
