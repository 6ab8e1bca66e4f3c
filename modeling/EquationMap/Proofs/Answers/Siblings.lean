import EquationMap.Proofs.Answers.Faults
import EquationMap.Proofs.Display.Shown
import EquationMap.Rendering

namespace EquationMap

/-! The expressions of a sequence do not disturb each other: each one reports the errors and gives
the content that it does alone, up to the first one that ends in a number without a machine form.
What it gives depends on its scope only by the values of the names in it. -/

namespace Outcome

variable {ρ ε α β : Type} {first : Outcome ρ ε α} {next : α → Outcome ρ ε β} {value : α}
  {reason : ε}

end Outcome

/-- What a name is shown as where its value in a scope, if it has one, is put. -/
def Scope.shown (scope : Scope) (name : String) (span : Span) : Except Halt (List Content) :=
  match scope.lookup? name with
  | none => .ok []
  | some value => ((value.display span).map ([·])).mapError .number

namespace Evaluate

open Outcome

variable {scope : Scope} {expr : Node} {exprs : List Node} {halt : Halt}

def alone (scope : Scope) (expr : Node) : Evaluation (List Content) :=
  sequence scope [expr]

end Evaluate

/-- Whether two scopes agree on the names anywhere in a part of a tree. -/
def TreePart.BoundAlike (scope other : Scope) (part : TreePart) : Prop :=
  part.Throughout fun inner => ∀ name place,
    inner = .node (.mathIdent name place) ∨ inner = .node (.ident name place) →
      other.lookup? name = scope.lookup? name

namespace TreePart.BoundAlike

variable {scope other : Scope} {part inner : TreePart}

theorem of_part (alike : part.BoundAlike scope other) (direct : inner ∈ part.parts) :
    inner.BoundAlike scope other :=
  Throughout.of_part alike direct

theorem nodes (alike : part.BoundAlike scope other) {exprs : List Node}
    (parts : part.parts = exprs.map .node) :
    ∀ expr ∈ exprs, (TreePart.node expr).BoundAlike scope other := by
  intro expr member
  apply alike.of_part
  rw [parts]
  exact List.mem_map_of_mem member

theorem only (alike : part.BoundAlike scope other) {expr : Node}
    (parts : part.parts = [.node expr]) : (TreePart.node expr).BoundAlike scope other := by
  apply alike.of_part
  rw [parts]
  exact List.mem_cons_self

theorem lookup {tree : Node} (alike : (TreePart.node tree).BoundAlike scope other)
    {name : String} {place : Place}
    (named : tree = .mathIdent name place ∨ tree = .ident name place) (span : Span) :
    Evaluate.lookup other name span = Evaluate.lookup scope name span := by
  have same : other.lookup? name = scope.lookup? name :=
    alike _ (TreePart.node tree).mem_subtree_self name place
      (named.imp (congrArg TreePart.node) (congrArg TreePart.node))
  rw [Evaluate.lookup, Evaluate.lookup, same]

end TreePart.BoundAlike

namespace Evaluate

variable {scope other : Scope}

mutual

theorem node_of_boundAlike : ∀ (strip : Bool) (expr : Node),
    (TreePart.node expr).BoundAlike scope other → node other strip expr = node scope strip expr
  | _, .math exprs _, alike => by
      simp [node, sequence_of_boundAlike exprs (alike.nodes rfl)]
  | _, .delimited _ body bodyPlace _ _, alike => by
      have inside : (TreePart.node (.math body bodyPlace)).BoundAlike scope other :=
        alike.of_part (by simp [TreePart.parts, Node.parts])
      simp [node, sequence_of_boundAlike body (inside.nodes rfl)]
  | _, .contentBlock body bodyPlace _, alike => by
      have inside : (TreePart.node (.math body bodyPlace)).BoundAlike scope other :=
        alike.only rfl
      simp [node, sequence_of_boundAlike body (inside.nodes rfl)]
  | _, .attach base bottom top _ _, alike => by
      have inside : (TreePart.node base).BoundAlike scope other :=
        alike.of_part (by simp [TreePart.parts, Node.parts])
      have above : ∀ expr ∈ top, (TreePart.node expr).BoundAlike scope other :=
        fun expr given => alike.of_part
          (by simp [TreePart.parts, Node.parts, Option.mem_def.mp given])
      have under : ∀ expr ∈ bottom, (TreePart.node expr).BoundAlike scope other :=
        fun expr given => alike.of_part
          (by simp [TreePart.parts, Node.parts, Option.mem_def.mp given])
      simp [node, node_of_boundAlike _ base inside, script_of_boundAlike bottom under,
        script_of_boundAlike top above]
  | _, .frac left right _, alike | _, .binary left _ right _, alike => by
      have first : (TreePart.node left).BoundAlike scope other :=
        alike.of_part (by simp [TreePart.parts, Node.parts])
      have second : (TreePart.node right).BoundAlike scope other :=
        alike.of_part (by simp [TreePart.parts, Node.parts])
      simp [node, node_of_boundAlike _ left first, node_of_boundAlike _ right second]
  | _, .root _ expr _, alike | _, .parenthesized expr _, alike | _, .unary _ expr _, alike
  | _, .field expr _ _, alike => by
      simp [node, node_of_boundAlike _ expr (alike.only rfl)]
  | _, .array elements _, alike => by
      simp [node, items_of_boundAlike elements (alike.nodes rfl)]
  | _, .dict elements _, alike => by
      simp [node, entries_of_boundAlike elements (alike.nodes rfl)]
  | _, .call callee args argsPlace _, alike => by
      have called : (TreePart.node callee).BoundAlike scope other :=
        alike.of_part (by simp [TreePart.parts, Node.parts])
      have given : (TreePart.arguments args argsPlace).BoundAlike scope other :=
        alike.of_part (by simp [TreePart.parts, Node.parts])
      simp [node, node_of_boundAlike _ callee called,
        arguments_of_boundAlike args (given.nodes rfl), shown_of_boundAlike args (given.nodes rfl)]
  | _, .mathIdent name place, alike => by
      rw [node, node, alike.lookup (.inl rfl)]
  | _, .ident name place, alike => by
      rw [node, node, alike.lookup (.inr rfl)]
  | _, .named _ _ _, _ | _, .keyed _ _ _, _ | _, .spread _ _, _ | _, .primes _, _
  | _, .text _ _, _ | _, .shorthand _ _ _, _ | _, .alignPoint _, _ | _, .linebreak _, _
  | _, .int _ _, _ | _, .float _ _, _ | _, .str _ _, _ | _, .bool _ _, _ | _, .noneLit _, _
  | _, .autoLit _, _ => by
      simp [node]

theorem sequence_of_boundAlike : ∀ exprs : List Node,
    (∀ expr ∈ exprs, (TreePart.node expr).BoundAlike scope other) →
      sequence other exprs = sequence scope exprs
  | [], _ => by
      simp [sequence]
  | expr :: rest, alike => by
      obtain ⟨here, later⟩ := List.forall_mem_cons.mp alike
      simp [sequence, node_of_boundAlike false expr here, sequence_of_boundAlike rest later]

theorem script_of_boundAlike : ∀ expr : Option Node,
    (∀ tree ∈ expr, (TreePart.node tree).BoundAlike scope other) →
      script other expr = script scope expr
  | none, _ => by
      simp [script]
  | some expr, alike => by
      simp [script, node_of_boundAlike true expr (alike expr rfl)]

theorem items_of_boundAlike : ∀ elements : List Node,
    (∀ expr ∈ elements, (TreePart.node expr).BoundAlike scope other) →
      items other elements = items scope elements
  | [], _ => by
      simp [items]
  | expr :: rest, alike => by
      obtain ⟨here, later⟩ := List.forall_mem_cons.mp alike
      have others := items_of_boundAlike rest later
      have first := node_of_boundAlike false expr here
      cases expr with
      | spread expr place => simp [items, node_of_boundAlike false expr (here.only rfl), others]
      | _ => simp only [items, first, others]

theorem entries_of_boundAlike : ∀ elements : List Node,
    (∀ expr ∈ elements, (TreePart.node expr).BoundAlike scope other) →
      ∀ found, entries other found elements = entries scope found elements
  | [], _, _ => by
      simp [entries]
  | expr :: rest, alike, found => by
      obtain ⟨here, later⟩ := List.forall_mem_cons.mp alike
      have others := entries_of_boundAlike rest later
      cases expr with
      | named name expr place =>
          simp [entries, node_of_boundAlike false expr (here.only rfl), others]
      | keyed key expr place =>
          have before : (TreePart.node key).BoundAlike scope other :=
            here.of_part (by simp [TreePart.parts, Node.parts])
          have inside : (TreePart.node expr).BoundAlike scope other :=
            here.of_part (by simp [TreePart.parts, Node.parts])
          simp [entries, node_of_boundAlike false key before, node_of_boundAlike false expr inside,
            others]
      | spread expr place =>
          simp [entries, node_of_boundAlike false expr (here.only rfl), others]
      | _ => simp only [entries]

theorem arguments_of_boundAlike : ∀ args : List Node,
    (∀ expr ∈ args, (TreePart.node expr).BoundAlike scope other) →
      ∀ found, arguments other found args = arguments scope found args
  | [], _, _ => by
      simp [arguments]
  | expr :: rest, alike, found => by
      obtain ⟨here, later⟩ := List.forall_mem_cons.mp alike
      have others := arguments_of_boundAlike rest later
      have first := node_of_boundAlike false expr here
      cases expr with
      | named name expr place | spread expr place =>
          simp [arguments, node_of_boundAlike false expr (here.only rfl), others]
      | _ => simp only [arguments, first, others]

theorem shown_of_boundAlike : ∀ args : List Node,
    (∀ expr ∈ args, (TreePart.node expr).BoundAlike scope other) →
      ∀ argsSpan isFirst, shown other argsSpan isFirst args = shown scope argsSpan isFirst args
  | [], _, _, _ => by
      simp [shown]
  | expr :: rest, alike, argsSpan, isFirst => by
      obtain ⟨here, later⟩ := List.forall_mem_cons.mp alike
      have others := shown_of_boundAlike rest later
      have first := node_of_boundAlike false expr here
      cases expr with
      | named name expr place | spread expr place =>
          simp [shown, node_of_boundAlike false expr (here.only rfl), others]
      | _ => simp only [shown, first, others]

end

end Evaluate

end EquationMap
