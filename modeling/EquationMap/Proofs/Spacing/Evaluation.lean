import EquationMap.Evaluation.Evaluate
import EquationMap.Proofs.Tree.Bare

namespace EquationMap

namespace Evaluate

open Node

@[simp]
theorem isMathIdent_bare (node : Node) : isMathIdent node.bare = isMathIdent node := by
  cases node <;> rfl

@[simp]
theorem delimiter_bare (marked : Delimiter) : delimiter marked.bare = delimiter marked :=
  rfl

@[simp]
theorem isRound_bare (opening closing : Delimiter) :
    isRound opening.bare closing.bare = isRound opening closing :=
  rfl

variable (scope : Scope)

mutual

theorem node_bare : ∀ (strip : Bool) (expr : Node),
    node scope strip expr.bare = node scope strip expr
  | _, .math exprs _ | _, .delimited _ exprs _ _ _ | _, .contentBlock exprs _ _ => by
      simp [bare, node, sequence_bare exprs, Place.bare]
  | _, .attach base bottom top marks _ => by
      cases marks <;>
        simp [bare, node, node_bare _ base, script_bare bottom, script_bare top, Place.bare,
          Primes.bare]
  | _, .frac left right _ | _, .binary left _ right _ => by
      simp [bare, node, node_bare _ left, node_bare _ right, Place.bare]
  | _, .root _ expr _ | _, .parenthesized expr _ | _, .unary _ expr _ | _, .field expr _ _ => by
      simp [bare, node, node_bare _ expr, Place.bare]
  | _, .array elements _ => by
      simp [bare, node, items_bare elements]
  | _, .dict elements _ => by
      simp [bare, node, entries_bare elements]
  | _, .call callee args _ _ => by
      simp [bare, node, node_bare _ callee, arguments_bare args, shown_bare args, Place.bare]
  | _, .named _ _ _ | _, .keyed _ _ _ | _, .spread _ _ => by
      rfl
  | _, .primes _ | _, .text _ _ | _, .mathIdent _ _ | _, .shorthand _ _ _ | _, .alignPoint _
  | _, .linebreak _ | _, .ident _ _ | _, .int _ _ | _, .float _ _ | _, .str _ _ | _, .bool _ _
  | _, .noneLit _ | _, .autoLit _ => rfl

theorem sequence_bare : ∀ exprs : List Node,
    sequence scope (exprs.map bare) = sequence scope exprs
  | [] => rfl
  | expr :: rest => by
      simp [sequence, node_bare false expr, sequence_bare rest]

theorem script_bare : ∀ expr : Option Node,
    script scope (expr.map bare) = script scope expr
  | none => rfl
  | some expr => by simp [script, node_bare true expr]

theorem items_bare : ∀ elements : List Node,
    items scope (elements.map bare) = items scope elements
  | [] => rfl
  | expr :: rest => by
      have first := node_bare false expr
      have others := items_bare rest
      cases expr with
      | spread expr place => simp [bare, items, node_bare false expr, others, Place.bare]
      | _ =>
          simp only [bare] at first
          simp only [List.map_cons, bare, items, first, others]

theorem entries_bare : ∀ (elements : List Node) (found : Entries Value),
    entries scope found (elements.map bare) = entries scope found elements
  | [], _ => rfl
  | expr :: rest, found => by
      have others := entries_bare rest
      cases expr with
      | named name expr place => simp [bare, entries, node_bare false expr, others]
      | keyed key expr place =>
          simp [bare, entries, node_bare false key, node_bare false expr, others]
      | spread expr place => simp [bare, entries, node_bare false expr, others, Place.bare]
      | _ => rfl

theorem arguments_bare : ∀ (args : List Node) (found : Arguments),
    arguments scope found (args.map bare) = arguments scope found args
  | [], _ => rfl
  | expr :: rest, found => by
      have first := node_bare false expr
      have others := arguments_bare rest
      cases expr with
      | named name expr place => simp [bare, arguments, node_bare false expr, others, Place.bare]
      | spread expr place => simp [bare, arguments, node_bare false expr, others, Place.bare]
      | _ =>
          simp only [bare] at first
          simp only [List.map_cons, bare, arguments, first, others]
          rfl

theorem shown_bare : ∀ (args : List Node) (argsSpan : Span) (isFirst : Bool),
    shown scope argsSpan isFirst (args.map bare) = shown scope argsSpan isFirst args
  | [], _, _ => rfl
  | expr :: rest, argsSpan, isFirst => by
      have first := node_bare false expr
      have others := shown_bare rest
      cases expr with
      | named name expr place => simp [bare, shown, node_bare false expr, others, Place.bare]
      | spread expr place => simp [bare, shown, node_bare false expr, others]
      | _ =>
          simp only [bare] at first
          simp only [List.map_cons, bare, shown, first, others]
          rfl

end

end Evaluate

theorem Formula.evaluate_bare (formula : Formula) (scope : Scope) :
    formula.bare.evaluate scope = formula.evaluate scope := by
  unfold Formula.evaluate Formula.bare
  rw [Evaluate.sequence_bare]
  rfl

end EquationMap
