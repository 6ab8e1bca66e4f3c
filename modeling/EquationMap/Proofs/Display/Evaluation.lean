import EquationMap.Evaluation.Evaluate
import EquationMap.Proofs.Display.Shown
import EquationMap.Proofs.Spans.Values
import EquationMap.Proofs.Tree.Nesting

namespace EquationMap

open Outcome

variable {scope : Scope}

namespace BinaryOp

variable {left right value : Value} {leftSpan rightSpan span : Span}

theorem not_array_of_ofNumber {result : Except NumberFault Number} {cells : List Value}
    (ends : (ofNumber result span).Ends (.array cells)) : False := by
  unfold ofNumber at ends
  split at ends
  · rename_i number
    have same := ends.eq_of_pure
    cases number <;> cases same
  · exact not_ends_stop ends

theorem presents_add (ends : (add.apply left right leftSpan rightSpan span).Ends value) :
    (left.Stays → value.Exhibits left leftSpan) ∧
      (right.Stays → value.Exhibits right rightSpan) := by
  have both {shown : Value} (ends : Outcome.Ends (do
      let left ← Evaluation.lift (left.display leftSpan)
      let right ← Evaluation.lift (right.display rightSpan)
      return .content (.sequence [left, right] span)) shown) :
      (left.Stays → shown.Exhibits left leftSpan) ∧
        (right.Stays → shown.Exhibits right rightSpan) := by
    obtain ⟨first, first_ends, ends⟩ := ends.of_bind
    obtain ⟨second, second_ends, ends⟩ := ends.of_bind
    rw [ends.eq_of_pure]
    exact ⟨fun _ => ⟨first, Evaluation.ends_of_lift first_ends,
        Value.presents_inner List.mem_cons_self⟩,
      fun _ => ⟨second, Evaluation.ends_of_lift second_ends,
        Value.presents_inner (List.mem_cons_of_mem _ List.mem_cons_self)⟩⟩
  unfold apply at ends
  dsimp only at ends
  split at ends
  · exact ⟨False.elim, False.elim⟩
  · exact ⟨False.elim, False.elim⟩
  · exact both ends
  · exact both ends
  · rename_i no_left no_right
    split at ends
    · rename_i left' right' isLeft isRight
      constructor
      · intro stays
        cases left <;> first | exact stays.elim | cases isLeft
      · intro stays
        cases right <;> first | exact stays.elim | cases isRight
    · exact (not_ends_stop ends).elim

theorem arrays_of_add {cells : List Value}
    (ends : (add.apply left right leftSpan rightSpan span).Ends (.array cells)) :
    ∃ items others, left = .array items ∧ right = .array others ∧ cells = items ++ others := by
  have no_sum (ends : Outcome.Ends (do
      let left ← Evaluation.lift (left.display leftSpan)
      let right ← Evaluation.lift (right.display rightSpan)
      return .content (.sequence [left, right] span)) (Value.array cells)) : False := by
    obtain ⟨_, -, ends⟩ := ends.of_bind
    obtain ⟨_, -, ends⟩ := ends.of_bind
    cases ends.eq_of_pure
  unfold apply at ends
  dsimp only at ends
  split at ends
  · cases ends.eq_of_pure
  · cases ends.eq_of_pure
    exact ⟨_, _, rfl, rfl, rfl⟩
  · exact (no_sum ends).elim
  · exact (no_sum ends).elim
  · split at ends
    · exact (not_array_of_ofNumber ends).elim
    · exact (not_ends_stop ends).elim

theorem array_of_mul {cells : List Value} {count : Int} (positive : 0 < count)
    (ends : (mul.apply left (.int count) leftSpan rightSpan span).Ends (.array cells)) :
    ∃ items, left = .array items ∧ items ⊆ cells := by
  unfold apply at ends
  dsimp only at ends
  split at ends
  · split at ends
    · cases ends.eq_of_pure
    · exact (not_ends_stop ends).elim
  · rename_i items other same
    cases same
    split at ends
    · rename_i repeated made
      cases ends.eq_of_pure
      refine ⟨items, rfl, fun item member => ?_⟩
      rw [eq_of_repeatList made]
      refine List.mem_flatten.mpr ⟨items, List.mem_replicate.mpr ⟨?_, rfl⟩, member⟩
      omega
    · exact (not_ends_stop ends).elim
  · split at ends
    · exact (not_array_of_ofNumber ends).elim
    · exact (not_ends_stop ends).elim

end BinaryOp

namespace Evaluate

variable {exprs : List Node}

theorem ends_displayed {evaluation : Evaluation Value} {span : Span} {shown : Content}
    (ends : (displayed evaluation span).Ends shown) :
    ∃ value, evaluation.Ends value ∧ value.display span = .ok shown := by
  obtain ⟨value, given, ends⟩ := ends.of_bind
  exact ⟨value, given, Evaluation.ends_of_lift ends⟩

theorem ends_sequence {children : List Content} (ends : (sequence scope exprs).Ends children) :
    ∀ expr ∈ exprs, ∃ value, (node scope false expr).Ends value ∧
      ∃ shown ∈ children, value.display expr.span = .ok shown := by
  induction exprs generalizing children with
  | nil => simp
  | cons first rest induction =>
      rw [sequence] at ends
      obtain ⟨found, recovered, ends⟩ := ends.of_bind
      obtain ⟨others, rest_ends, ends⟩ := ends.of_bind
      obtain ⟨content, rfl, first_ends⟩ := Evaluation.ends_of_recover recovered
      obtain ⟨value, first_ends, displayed⟩ := ends_displayed first_ends
      rw [ends.eq_of_pure]
      refine List.forall_mem_cons.mpr ⟨⟨value, first_ends, content, by simp, displayed⟩, ?_⟩
      intro expr member
      obtain ⟨other, other_ends, shown, among, displayed⟩ := induction rest_ends expr member
      exact ⟨other, other_ends, shown, List.mem_append_right _ among, displayed⟩

theorem ends_script {expr : Option Node} {shown : Option Content}
    (ends : (script scope expr).Ends shown) :
    ∀ tree ∈ expr.toList, ∃ content, shown = some content ∧
      (displayed (node scope true tree) tree.span).Ends content := by
  cases expr with
  | none => simp
  | some tree =>
      rw [script] at ends
      obtain ⟨content, tree_ends, ends⟩ := ends.of_bind
      simpa [ends.eq_of_pure] using tree_ends

theorem ends_items {values : List Value} (ends : (items scope exprs).Ends values) :
    (∀ expr ∈ exprs, expr.isPositional = true →
        ∃ value ∈ values, (node scope false expr).Ends value) ∧
      ∀ expr place, .spread expr place ∈ exprs →
        ∃ spread, (node scope false expr).Ends (.array spread) ∧ spread ⊆ values := by
  induction exprs generalizing values with
  | nil => simp
  | cons first rest induction =>
      unfold items at ends
      split at ends
      · rename_i same
        cases same
      · rename_i expr place rest same
        obtain ⟨rfl, rfl⟩ := List.cons.inj same
        obtain ⟨value, expr_ends, ends⟩ := ends.of_bind
        split at ends
        · rename_i spread
          obtain ⟨others, rest_ends, ends⟩ := ends.of_bind
          obtain ⟨singles, spreads⟩ := induction rest_ends
          rw [ends.eq_of_pure]
          constructor
          · refine List.forall_mem_cons.mpr ⟨fun single => (by cases single), ?_⟩
            intro other member single
            obtain ⟨found, among, other_ends⟩ := singles other member single
            exact ⟨found, List.mem_append_right _ among, other_ends⟩
          · intro other inside member
            rcases List.mem_cons.mp member with same | later
            · cases same
              exact ⟨spread, expr_ends, List.subset_append_left _ _⟩
            · obtain ⟨found, other_ends, among⟩ := spreads other inside later
              exact ⟨found, other_ends, List.Subset.trans among (List.subset_append_right _ _)⟩
        · exact (not_ends_stop ends).elim
      · rename_i expr rest not_spread same
        obtain ⟨rfl, rfl⟩ := List.cons.inj same
        obtain ⟨value, expr_ends, ends⟩ := ends.of_bind
        obtain ⟨others, rest_ends, ends⟩ := ends.of_bind
        obtain ⟨singles, spreads⟩ := induction rest_ends
        rw [ends.eq_of_pure]
        constructor
        · refine List.forall_mem_cons.mpr
            ⟨fun _ => ⟨value, List.mem_cons_self, expr_ends⟩, ?_⟩
          intro other member single
          obtain ⟨found, among, other_ends⟩ := singles other member single
          exact ⟨found, List.mem_cons_of_mem _ among, other_ends⟩
        · intro other inside member
          rcases List.mem_cons.mp member with same | later
          · exact (not_spread _ _ same.symm).elim
          · obtain ⟨found, other_ends, among⟩ := spreads other inside later
            exact ⟨found, other_ends, List.Subset.trans among (List.subset_cons_self _ _)⟩

theorem ends_arguments {found taken : Arguments}
    (ends : (arguments scope found exprs).Ends taken) :
    found.positional ⊆ taken.positional ∧
      ∀ expr ∈ exprs, expr.isPositional = true →
        ∃ value, (node scope false expr).Ends value ∧ (value, expr.span) ∈ taken.positional := by
  induction exprs generalizing found with
  | nil =>
      rw [arguments] at ends
      rw [ends.eq_of_pure]
      simp
  | cons first rest induction =>
      unfold arguments at ends
      split at ends
      · rename_i same
        cases same
      · rename_i name expr place rest same
        obtain ⟨rfl, rfl⟩ := List.cons.inj same
        obtain ⟨value, expr_ends, ends⟩ := ends.of_bind
        obtain ⟨kept, later⟩ := induction ends
        exact ⟨kept, List.forall_mem_cons.mpr ⟨fun single => (by cases single), later⟩⟩
      · rename_i expr place rest same
        obtain ⟨rfl, rfl⟩ := List.cons.inj same
        obtain ⟨value, expr_ends, ends⟩ := ends.of_bind
        split at ends
        · obtain ⟨kept, later⟩ := induction ends
          refine ⟨List.Subset.trans (List.subset_append_left _ _) kept, ?_⟩
          exact List.forall_mem_cons.mpr ⟨fun single => (by cases single), later⟩
        · obtain ⟨kept, later⟩ := induction ends
          exact ⟨kept, List.forall_mem_cons.mpr ⟨fun single => (by cases single), later⟩⟩
        · exact (not_ends_stop ends).elim
      · rename_i expr rest _ _ same
        obtain ⟨rfl, rfl⟩ := List.cons.inj same
        obtain ⟨value, expr_ends, ends⟩ := ends.of_bind
        obtain ⟨kept, later⟩ := induction ends
        refine ⟨List.Subset.trans (List.subset_append_left _ _) kept, ?_⟩
        exact List.forall_mem_cons.mpr
          ⟨fun _ => ⟨value, expr_ends, kept (by simp)⟩, later⟩

theorem ends_shownArgument {argsSpan : Span} {isFirst : Bool} {expr : Node}
    {rest : Evaluation (List Content)} {contents : List Content} (before : List Content)
    (ends : Outcome.Ends (do
      let content ← displayed (node scope false expr) expr.span
      return comma isFirst argsSpan ++ (before ++ content :: (← rest))) contents) :
    ∃ others, rest.Ends others ∧ others ⊆ contents ∧
      ∃ value, (node scope false expr).Ends value ∧
        ∃ shown ∈ contents, value.display expr.span = .ok shown := by
  obtain ⟨content, expr_ends, ends⟩ := ends.of_bind
  obtain ⟨value, expr_ends, displayed⟩ := ends_displayed expr_ends
  obtain ⟨others, rest_ends, ends⟩ := ends.of_bind
  rw [ends.eq_of_pure]
  refine ⟨others, rest_ends, fun other among => ?_, value, expr_ends, content, by simp, displayed⟩
  simp [among]

theorem ends_shown {argsSpan : Span} {isFirst : Bool} {contents : List Content}
    (ends : (shown scope argsSpan isFirst exprs).Ends contents) :
    ∀ expr ∈ exprs, expr.isPositional = true → ∃ value, (node scope false expr).Ends value ∧
      ∃ shown ∈ contents, value.display expr.span = .ok shown := by
  induction exprs generalizing isFirst contents with
  | nil => simp
  | cons first rest induction =>
      have later {others : List Content} {notFirst : Bool} (among : others ⊆ contents)
          (rest_ends : (shown scope argsSpan notFirst rest).Ends others) :
          ∀ expr ∈ rest, expr.isPositional = true →
            ∃ value, (node scope false expr).Ends value ∧
              ∃ shown ∈ contents, value.display expr.span = .ok shown := by
        intro expr member single
        obtain ⟨value, expr_ends, shown, isShown, displayed⟩ :=
          induction rest_ends expr member single
        exact ⟨value, expr_ends, shown, among isShown, displayed⟩
      unfold shown at ends
      split at ends
      · rename_i same
        cases same
      · rename_i name expr place rest same
        obtain ⟨rfl, rfl⟩ := List.cons.inj same
        obtain ⟨others, rest_ends, among, -⟩ := ends_shownArgument [_] ends
        exact List.forall_mem_cons.mpr ⟨fun single => (by cases single), later among rest_ends⟩
      · rename_i expr place rest same
        obtain ⟨rfl, rfl⟩ := List.cons.inj same
        obtain ⟨others, rest_ends, among, -⟩ := ends_shownArgument [] ends
        exact List.forall_mem_cons.mpr ⟨fun single => (by cases single), later among rest_ends⟩
      · rename_i expr rest _ _ same
        obtain ⟨rfl, rfl⟩ := List.cons.inj same
        obtain ⟨others, rest_ends, among, here⟩ := ends_shownArgument [] ends
        exact List.forall_mem_cons.mpr ⟨fun _ => here, later among rest_ends⟩

end Evaluate

end EquationMap
