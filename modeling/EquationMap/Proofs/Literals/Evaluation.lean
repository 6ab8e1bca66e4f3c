import EquationMap.Evaluation.Evaluate
import EquationMap.Proofs.Display.Shown
import EquationMap.Proofs.Tree.Unspanned
import EquationMap.Syntax.Grammar
import Mathlib.Data.List.Forall2

namespace EquationMap

namespace Entries

variable {α : Type} {key : String} {entries : Entries α}

theorem put_eq_append (value : α) (absent : key ∉ keys entries) :
    put key value entries = entries ++ [(key, value)] := by
  induction entries with
  | nil => rfl
  | cons entry rest induction =>
      obtain ⟨differs, later⟩ := List.ne_and_not_mem_of_not_mem_cons absent
      rw [put, if_neg (Ne.symm differs), induction later]
      rfl

end Entries

/-- Whether a tree is evaluated to a value without a report, with any spans and names. -/
def Node.Gives (node : Node) (value : Value) : Prop :=
  ∀ other : Node, other.unspanned = node.unspanned →
    ∀ scope strip, (Evaluate.node scope strip other).Ends value

namespace Node.Gives

variable {expr node : Node} {value : Value} {place : Place} {nodes : List Node}

theorem ends (gives : node.Gives value) (scope : Scope) (strip : Bool) :
    (Evaluate.node scope strip node).Ends value :=
  gives node rfl scope strip

theorem none : (Node.noneLit place).Gives .none := by
  intro other same scope strip
  cases other with
  | noneLit place => exact Outcome.ends_pure
  | _ => simp [unspanned] at same

theorem auto : (Node.autoLit place).Gives .auto := by
  intro other same scope strip
  cases other with
  | autoLit place => exact Outcome.ends_pure
  | _ => simp [unspanned] at same

theorem bool (value : Bool) : (Node.bool value place).Gives (.bool value) := by
  intro other same scope strip
  cases other with
  | bool other place =>
      simp only [unspanned, Node.bool.injEq] at same
      rw [same.1]
      exact Outcome.ends_pure
  | _ => simp [unspanned] at same

theorem str (text : String) : (Node.str text place).Gives (.str text) := by
  intro other same scope strip
  cases other with
  | str other place =>
      simp only [unspanned, Node.str.injEq] at same
      rw [same.1]
      exact Outcome.ends_pure
  | _ => simp [unspanned] at same

theorem int (size : Nat) : (Node.int size place).Gives (.int size) := by
  intro other same scope strip
  cases other with
  | int other place =>
      simp only [unspanned, Node.int.injEq] at same
      rw [same.1]
      exact Outcome.ends_pure
  | _ => simp [unspanned] at same

theorem negate {size : Int} (gives : expr.Gives (.int size)) :
    (Node.unary .negate expr place).Gives (.int (-size)) := by
  intro other same scope strip
  cases other with
  | unary op inner place =>
      simp only [unspanned, unary.injEq] at same
      obtain ⟨rfl, same, -⟩ := same
      rw [Evaluate.node]
      exact (gives inner same scope false).bind ⟨rfl, rfl⟩
  | _ => simp [unspanned] at same

theorem parenthesized (gives : expr.Gives value) : (Node.parenthesized expr place).Gives value := by
  intro other same scope strip
  cases other with
  | parenthesized inner place =>
      simp only [unspanned, parenthesized.injEq] at same
      rw [Evaluate.node]
      exact gives inner same.1 scope false
  | _ => simp [unspanned] at same

theorem isItem (gives : node.Gives value) :
    Grammar.isPair node = false ∧ Grammar.isSpread node = false := by
  have ends := gives.ends [] false
  cases node with
  | named | keyed | spread =>
      rw [Evaluate.node] at ends
      exact (Outcome.not_ends_stop ends).elim
  | _ => exact ⟨rfl, rfl⟩

end Node.Gives

/-- Whether a tree is an entry of a dictionary: a name before a tree that gives its value. -/
def Node.GivesEntry (node : Node) (entry : String × Value) : Prop :=
  ∃ expr place, node = .named entry.1 expr place ∧ expr.Gives entry.2

theorem Node.exists_named_of_unspanned {other expr : Node} {name : String} {place : Place}
    (same : other.unspanned = (Node.named name expr place).unspanned) :
    ∃ inner place, other = .named name inner place ∧ inner.unspanned = expr.unspanned := by
  cases other with
  | named other inner place =>
      simp only [unspanned, named.injEq] at same
      obtain ⟨rfl, same, -⟩ := same
      exact ⟨inner, place, rfl, same⟩
  | _ => simp [unspanned] at same

namespace Evaluate

variable {scope : Scope} {nodes others : List Node} {values : List Value}

theorem ends_items_of_gives (gives : List.Forall₂ Node.Gives nodes values)
    (same : others.map Node.unspanned = nodes.map Node.unspanned) :
    (items scope others).Ends values := by
  induction gives generalizing others with
  | nil =>
      rw [List.map_nil, List.map_eq_nil_iff] at same
      rw [same, items]
      exact Outcome.ends_pure
  | @cons node value nodes values gives later induction =>
      cases others with
      | nil => cases same
      | cons other others =>
          obtain ⟨same_first, same_later⟩ := List.cons.inj same
          rw [items]
          · exact (gives other same_first scope false).bind
              ((induction same_later).bind Outcome.ends_pure)
          · rintro expr place rfl
            have ends := gives _ same_first scope false
            rw [Evaluate.node] at ends
            exact Outcome.not_ends_stop ends

theorem ends_entries_of_gives {entries : Entries Value}
    (gives : List.Forall₂ Node.GivesEntry nodes entries)
    (same : others.map Node.unspanned = nodes.map Node.unspanned) (found : Entries Value)
    (distinct : (found.keys ++ entries.keys).Nodup) :
    (Evaluate.entries scope found others).Ends (found ++ entries) := by
  induction gives generalizing others found with
  | nil =>
      rw [List.map_nil, List.map_eq_nil_iff] at same
      rw [same, Evaluate.entries, List.append_nil]
      exact Outcome.ends_pure
  | @cons node entry nodes entries gives later induction =>
      obtain ⟨expr, place, rfl, gives⟩ := gives
      cases others with
      | nil => cases same
      | cons other others =>
          obtain ⟨same_first, same_later⟩ := List.cons.inj same
          obtain ⟨inner, inner_place, rfl, same_inner⟩ := Node.exists_named_of_unspanned same_first
          have fresh : entry.1 ∉ found.keys := fun member =>
            (List.nodup_append.mp distinct).2.2 _ member _ List.mem_cons_self rfl
          rw [Evaluate.entries, List.append_cons]
          refine (gives inner same_inner scope false).bind ?_
          rw [Entries.put_eq_append entry.2 fresh]
          refine induction same_later (found ++ [entry]) ?_
          rw [Entries.keys, List.map_append, List.append_assoc]
          exact distinct

end Evaluate

namespace Node.Gives

variable {nodes : List Node} {place : Place}

theorem array {values : List Value} (gives : List.Forall₂ Gives nodes values) :
    (Node.array nodes place).Gives (.array values) := by
  intro other same scope strip
  cases other with
  | array others place =>
      simp only [unspanned, unspannedList_eq, Node.array.injEq] at same
      rw [Evaluate.node]
      exact (Evaluate.ends_items_of_gives gives same.1).bind Outcome.ends_pure
  | _ => simp [unspanned] at same

theorem dict {entries : Entries Value} (gives : List.Forall₂ GivesEntry nodes entries)
    (distinct : entries.keys.Nodup) : (Node.dict nodes place).Gives (.dict entries) := by
  intro other same scope strip
  cases other with
  | dict others place =>
      simp only [unspanned, unspannedList_eq, Node.dict.injEq] at same
      rw [Evaluate.node]
      exact (Evaluate.ends_entries_of_gives gives same.1 [] distinct).bind Outcome.ends_pure
  | _ => simp [unspanned] at same

end Node.Gives

end EquationMap
