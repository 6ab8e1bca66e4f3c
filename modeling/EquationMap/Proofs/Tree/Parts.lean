import EquationMap.Syntax.Node

namespace EquationMap

/-! All that a tree is made of. Besides its expressions these are the delimiters and the bodies
of groups, the prime marks of atoms and the arguments of calls. -/

/-- A part of a tree that has a place of its own. -/
inductive TreePart where
  | node (node : Node)
  | arguments (args : List Node) (place : Place)

def Delimiter.node (delimiter : Delimiter) : Node :=
  .text delimiter.text delimiter.place

namespace Node

/-- The parts directly below a node, in the order in which they are declared. -/
def parts : Node → List TreePart
  | math exprs _ => exprs.map .node
  | delimited opening body bodyPlace closing _ =>
      [.node opening.node, .node (math body bodyPlace), .node closing.node]
  | attach base bottom top marks _ =>
      .node base :: bottom.toList.map .node ++ top.toList.map .node ++
        marks.toList.map fun marks => .node (primes marks)
  | frac num denom _ => [.node num, .node denom]
  | root _ expr _ | parenthesized expr _ | named _ expr _ | spread expr _ | unary _ expr _
  | field expr _ _ => [.node expr]
  | keyed key expr _ => [.node key, .node expr]
  | array items _ | dict items _ => items.map .node
  | contentBlock body bodyPlace _ => [.node (math body bodyPlace)]
  | call callee args argsPlace _ => [.node callee, .arguments args argsPlace]
  | binary lhs _ rhs _ => [.node lhs, .node rhs]
  | primes _ | text _ _ | mathIdent _ _ | shorthand _ _ _ | alignPoint _ | linebreak _
  | ident _ _ | int _ _ | float _ _ | str _ _ | bool _ _ | noneLit _ | autoLit _ => []

mutual

/-- A node and all that it is made of, every part before the parts below it. -/
def subtree : Node → List TreePart
  | math exprs place => .node (math exprs place) :: subtreeOfList exprs
  | delimited opening body bodyPlace closing place =>
      .node (delimited opening body bodyPlace closing place) :: .node opening.node ::
        .node (math body bodyPlace) :: subtreeOfList body ++ [.node closing.node]
  | attach base bottom top marks place =>
      .node (attach base bottom top marks place) :: base.subtree ++ subtreeOfOption bottom ++
        subtreeOfOption top ++ marks.toList.map fun marks => .node (primes marks)
  | frac num denom place => .node (frac num denom place) :: num.subtree ++ denom.subtree
  | root degree radicand place => .node (root degree radicand place) :: radicand.subtree
  | parenthesized expr place => .node (parenthesized expr place) :: expr.subtree
  | named name expr place => .node (named name expr place) :: expr.subtree
  | spread expr place => .node (spread expr place) :: expr.subtree
  | unary op expr place => .node (unary op expr place) :: expr.subtree
  | field target name place => .node (field target name place) :: target.subtree
  | keyed key expr place => .node (keyed key expr place) :: key.subtree ++ expr.subtree
  | array items place => .node (array items place) :: subtreeOfList items
  | dict items place => .node (dict items place) :: subtreeOfList items
  | contentBlock body bodyPlace place =>
      .node (contentBlock body bodyPlace place) :: .node (math body bodyPlace) ::
        subtreeOfList body
  | call callee args argsPlace place =>
      .node (call callee args argsPlace place) :: callee.subtree ++
        .arguments args argsPlace :: subtreeOfList args
  | binary lhs op rhs place => .node (binary lhs op rhs place) :: lhs.subtree ++ rhs.subtree
  | primes marks => [.node (primes marks)]
  | text written place => [.node (text written place)]
  | mathIdent name place => [.node (mathIdent name place)]
  | shorthand written symbol place => [.node (shorthand written symbol place)]
  | alignPoint place => [.node (alignPoint place)]
  | linebreak place => [.node (linebreak place)]
  | ident name place => [.node (ident name place)]
  | int value place => [.node (int value place)]
  | float value place => [.node (float value place)]
  | str value place => [.node (str value place)]
  | bool value place => [.node (bool value place)]
  | noneLit place => [.node (noneLit place)]
  | autoLit place => [.node (autoLit place)]

def subtreeOfList : List Node → List TreePart
  | [] => []
  | node :: rest => node.subtree ++ subtreeOfList rest

def subtreeOfOption : Option Node → List TreePart
  | none => []
  | some node => node.subtree

end

theorem subtreeOfList_eq (nodes : List Node) : subtreeOfList nodes = nodes.flatMap subtree := by
  induction nodes with
  | nil => rfl
  | cons node rest ih => rw [subtreeOfList, ih, List.flatMap_cons]

theorem subtreeOfOption_eq (node : Option Node) :
    subtreeOfOption node = node.toList.flatMap subtree := by
  cases node <;> simp [subtreeOfOption]

end Node

namespace TreePart

def place : TreePart → Place
  | .node tree => tree.place
  | .arguments _ place => place

def range (part : TreePart) : ByteRange :=
  part.place.range

def parts : TreePart → List TreePart
  | .node tree => tree.parts
  | .arguments args _ => args.map .node

/-- A part and all that it is made of. -/
def subtree : TreePart → List TreePart
  | .node tree => tree.subtree
  | .arguments args place => .arguments args place :: Node.subtreeOfList args

theorem subtree_eq (part : TreePart) : part.subtree = part :: part.parts.flatMap subtree := by
  have of_nodes (nodes : List Node) :
      (nodes.map TreePart.node).flatMap subtree = nodes.flatMap Node.subtree := by
    induction nodes with
    | nil => rfl
    | cons first rest ih =>
        rw [List.map_cons, List.flatMap_cons, List.flatMap_cons, ih]
        rfl
  cases part with
  | arguments args place =>
      simp only [subtree, parts, of_nodes, Node.subtreeOfList_eq]
  | node tree =>
      cases tree
      case attach base bottom top marks place =>
        cases marks <;>
          simp [subtree, parts, Node.parts, Node.subtree, Node.subtreeOfOption_eq, of_nodes]
      all_goals
        simp [subtree, parts, Node.parts, Node.subtree, Node.subtreeOfList_eq, of_nodes,
          Delimiter.node]

theorem mem_subtree_self (part : TreePart) : part ∈ part.subtree := by
  rw [subtree_eq]
  exact List.mem_cons_self

theorem subtree_subset (part : TreePart) {inner : TreePart} (member : inner ∈ part.parts) :
    inner.subtree ⊆ part.subtree := by
  intro below inside
  rw [part.subtree_eq]
  exact List.mem_cons_of_mem _ (List.mem_flatMap.mpr ⟨inner, member, inside⟩)

/-- What holds of a part if it holds of the parts directly below it holds of every part. -/
theorem induction {motive : TreePart → Prop}
    (step : ∀ part, (∀ inner ∈ part.parts, motive inner) → motive part) (part : TreePart) :
    motive part := by
  induction size : part.subtree.length using Nat.strongRecOn generalizing part with
  | ind length ih =>
      refine step part fun inner member => ih inner.subtree.length ?_ inner rfl
      rw [← size, part.subtree_eq, List.length_cons, Nat.lt_succ_iff]
      exact (List.sublist_flatten_of_mem (List.mem_map_of_mem member)).length_le

/-- Whether something holds of a part and of all that it is made of. -/
def Throughout (holds : TreePart → Prop) (part : TreePart) : Prop :=
  ∀ inner ∈ part.subtree, holds inner

theorem Throughout.of_part {holds : TreePart → Prop} {part inner : TreePart}
    (throughout : part.Throughout holds) (direct : inner ∈ part.parts) :
    inner.Throughout holds :=
  fun below inside => throughout below (part.subtree_subset direct inside)

theorem throughout {holds : TreePart → Prop} {part : TreePart}
    (step : ∀ inner ∈ part.subtree, (∀ direct ∈ inner.parts, direct.Throughout holds) →
      holds inner) : part.Throughout holds := by
  induction part using TreePart.induction with
  | step part induction =>
      have below : ∀ inner ∈ part.parts, inner.Throughout holds :=
        fun inner direct => induction inner direct fun deeper inside =>
          step deeper (part.subtree_subset direct inside)
      intro inner member
      rw [part.subtree_eq] at member
      rcases List.mem_cons.mp member with rfl | deeper
      · exact step inner inner.mem_subtree_self below
      · obtain ⟨direct, isDirect, inside⟩ := List.mem_flatMap.mp deeper
        exact below direct isDirect inner inside

theorem subtree_sublist {part inner : TreePart} (member : inner ∈ part.subtree) :
    inner.subtree.Sublist part.subtree := by
  induction part using TreePart.induction with
  | step part ih =>
      rw [part.subtree_eq] at member
      rcases List.mem_cons.mp member with rfl | below
      · exact List.Sublist.refl _
      · rw [part.subtree_eq]
        obtain ⟨direct, isDirect, inside⟩ := List.mem_flatMap.mp below
        have step := List.sublist_flatten_of_mem (List.mem_map_of_mem (f := subtree) isDirect)
        exact ((ih direct isDirect inside).trans step).cons part

end TreePart

end EquationMap
