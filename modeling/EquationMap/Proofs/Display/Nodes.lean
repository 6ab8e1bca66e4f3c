import EquationMap.Proofs.Display.Evaluation
import EquationMap.Proofs.Display.Functions
import EquationMap.Proofs.Tree.Laminar

namespace EquationMap

open Outcome

namespace Node

/-- The nodes whose values a node displays, each at the span of that node. -/
def displayed : Node → List Node
  | math exprs _ | delimited _ exprs _ _ _ | contentBlock exprs _ _ => exprs
  | frac num denom _ => [num, denom]
  | attach base bottom top _ _ => base :: (bottom.toList ++ top.toList)
  | root _ radicand _ => [radicand]
  | call _ args _ _ => args.filter isPositional
  | binary lhs .add rhs _ => [lhs, rhs]
  | _ => []

variable (scope : Scope)

/-- Whether the value of a node is an item of the array that another node gives. -/
inductive Carries : Node → Node → Prop where
  | item {items : List Node} {place : Place} {expr : Node} (member : expr ∈ items)
      (single : expr.isPositional = true) : Carries (.array items place) expr
  | spread {items : List Node} {place inside : Place} {expr inner : Node}
      (member : .spread expr inside ∈ items) (carries : Carries expr inner) :
      Carries (.array items place) inner
  | grouped {expr inner : Node} {place : Place} (carries : Carries expr inner) :
      Carries (.parenthesized expr place) inner
  | left {lhs rhs inner : Node} {place : Place} (carries : Carries lhs inner) :
      Carries (.binary lhs .add rhs place) inner
  | right {lhs rhs inner : Node} {place : Place} (carries : Carries rhs inner) :
      Carries (.binary lhs .add rhs place) inner
  | repeated {lhs rhs inner : Node} {place : Place} {count : Int} (carries : Carries lhs inner)
      (counted : (Evaluate.node scope false rhs).result = .ok (.int count))
      (positive : 0 < count) : Carries (.binary lhs .mul rhs place) inner

/-- Whether a node is displayed wherever another one is, at the span of a host: at its own span,
or as a cell of a matrix at the span of the row. -/
inductive Displays : Node → Node → Node → Prop where
  | here {node expr : Node} (direct : expr ∈ node.displayed) : Displays node expr expr
  | within {node expr inner host : Node} (direct : expr ∈ node.displayed)
      (displays : Displays expr inner host) : Displays node inner host
  | grouped {expr inner host : Node} {place : Place} (displays : Displays expr inner host) :
      Displays (.parenthesized expr place) inner host
  | cell {callee row expr : Node} {args : List Node} {argsPlace place : Place}
      {cells : List Value} (matrix : (Evaluate.node scope false callee).result = .ok (.func .mat))
      (member : row ∈ args.filter isPositional)
      (array : (Evaluate.node scope false row).result = .ok (.array cells))
      (carries : Carries scope row expr) :
      Displays (.call callee args argsPlace place) expr row
  | inCell {callee row expr inner host : Node} {args : List Node} {argsPlace place : Place}
      {cells : List Value} (matrix : (Evaluate.node scope false callee).result = .ok (.func .mat))
      (member : row ∈ args.filter isPositional)
      (array : (Evaluate.node scope false row).result = .ok (.array cells))
      (carries : Carries scope row expr) (displays : Displays expr inner host) :
      Displays (.call callee args argsPlace place) inner host

end Node

variable {scope : Scope}

namespace Node

variable {node expr inner host : Node}

theorem displayed_subset (node : Node) : node.displayed ⊆ node.subexpressions := by
  intro expr member
  cases node with
  | math | delimited | contentBlock | frac | attach | root => exact member
  | call => exact List.mem_cons_of_mem _ member
  | binary lhs op rhs place =>
      cases op with
      | add => exact member
      | _ => cases member
  | _ => cases member

theorem Reaches.trans {middle : Node} (first : node.Reaches middle)
    (second : middle.Reaches inner) : node.Reaches inner := by
  induction first with
  | here => exact second
  | through direct _ induction => exact .through direct (induction second)

theorem Carries.reaches (carries : node.Carries scope inner) : node.Reaches inner := by
  induction carries with
  | @item items place expr member single =>
      have same : expr.unspread = expr := by
        cases expr with
        | spread => cases single
        | _ => rfl
      refine .through (List.mem_map.mpr ⟨expr, member, same⟩) .here
  | spread member carries induction =>
      exact .through (List.mem_map.mpr ⟨_, member, rfl⟩) induction
  | grouped carries induction => exact .through (by simp [subexpressions]) induction
  | left carries induction => exact .through (by simp [subexpressions]) induction
  | right carries induction => exact .through (by simp [subexpressions]) induction
  | repeated carries counted positive induction =>
      exact .through (by simp [subexpressions]) induction

theorem Displays.host_cases (displays : node.Displays scope inner host) :
    host = inner ∨ host.Carries scope inner := by
  induction displays with
  | here direct => exact .inl rfl
  | within direct displays induction => exact induction
  | grouped displays induction => exact induction
  | cell matrix member array carries => exact .inr carries
  | inCell matrix member array carries displays induction => exact induction

theorem Displays.reaches_host (displays : node.Displays scope inner host) : node.Reaches host := by
  induction displays with
  | here direct => exact .through (displayed_subset _ direct) .here
  | within direct displays induction => exact .through (displayed_subset _ direct) induction
  | grouped displays induction => exact .through (by simp [subexpressions]) induction
  | cell matrix member array carries => exact .through (List.mem_cons_of_mem _ member) .here
  | inCell matrix member array carries displays induction =>
      exact .through (List.mem_cons_of_mem _ member) (carries.reaches.trans induction)

end Node

open Evaluate

theorem Node.Carries.exists_item {outer inner : Node} (carries : outer.Carries scope inner)
    {strip : Bool} {cells : List Value} (ends : (node scope strip outer).Ends (.array cells)) :
    ∃ value ∈ cells, (node scope false inner).Ends value := by
  induction carries generalizing strip cells with
  | @item items place expr member single =>
      rw [node] at ends
      obtain ⟨values, items_end, ends⟩ := ends.of_bind
      cases ends.eq_of_pure
      exact (ends_items items_end).1 expr member single
  | @spread items place inside expr inner member carries induction =>
      rw [node] at ends
      obtain ⟨values, items_end, ends⟩ := ends.of_bind
      cases ends.eq_of_pure
      obtain ⟨spread, expr_ends, among⟩ := (ends_items items_end).2 expr inside member
      obtain ⟨value, isItem, inner_ends⟩ := induction expr_ends
      exact ⟨value, among isItem, inner_ends⟩
  | grouped carries induction =>
      rw [node] at ends
      exact induction ends
  | left carries induction =>
      rw [node] at ends
      obtain ⟨left, lhs_ends, ends⟩ := ends.of_bind
      obtain ⟨right, rhs_ends, ends⟩ := ends.of_bind
      obtain ⟨items, others, rfl, rfl, rfl⟩ := BinaryOp.arrays_of_add ends
      obtain ⟨value, isItem, inner_ends⟩ := induction lhs_ends
      exact ⟨value, List.mem_append_left _ isItem, inner_ends⟩
  | right carries induction =>
      rw [node] at ends
      obtain ⟨left, lhs_ends, ends⟩ := ends.of_bind
      obtain ⟨right, rhs_ends, ends⟩ := ends.of_bind
      obtain ⟨items, others, rfl, rfl, rfl⟩ := BinaryOp.arrays_of_add ends
      obtain ⟨value, isItem, inner_ends⟩ := induction rhs_ends
      exact ⟨value, List.mem_append_right _ isItem, inner_ends⟩
  | repeated carries counted positive induction =>
      rw [node] at ends
      obtain ⟨left, lhs_ends, ends⟩ := ends.of_bind
      obtain ⟨right, rhs_ends, ends⟩ := ends.of_bind
      cases counted.symm.trans rhs_ends.2
      obtain ⟨items, rfl, among⟩ := BinaryOp.array_of_mul positive ends
      obtain ⟨value, isItem, inner_ends⟩ := induction lhs_ends
      exact ⟨value, among isItem, inner_ends⟩

/-- Whether a node, if it has a value that keeps its look, is presented by a value at the span of
its host. -/
def Node.PresentedBy (scope : Scope) (value : Value) (expr host : Node) : Prop :=
  ∃ strip found, (node scope strip expr).Ends found ∧
    (found.Stays → value.Exhibits found host.span)

section

variable {callee expr : Node} {args : List Node} {argsPlace place : Place} {strip : Bool}
  {value : Value}

theorem presentedBy_of_displayed {made shown : Content}
    (ends : (displayed (node scope strip expr) expr.span).Ends shown)
    (direct : shown ∈ made.inner) : expr.PresentedBy scope (.content made) expr := by
  obtain ⟨found, expr_ends, here⟩ := ends_displayed ends
  exact ⟨strip, found, expr_ends, fun _ => ⟨shown, here, Value.presents_inner direct⟩⟩

theorem presented_of_call (member : expr ∈ args.filter Node.isPositional)
    (placed : expr.span ≠ .detached)
    (ends : (node scope strip (.call callee args argsPlace place)).Ends value) :
    expr.PresentedBy scope value expr := by
  obtain ⟨among, single⟩ := List.mem_filter.mp member
  rw [node] at ends
  obtain ⟨called, callee_ends, ends⟩ := ends.of_bind
  split at ends
  · obtain ⟨arguments, taken, ends⟩ := ends.of_bind
    obtain ⟨found, expr_ends, isArgument⟩ := (ends_arguments taken).2 expr among single
    unfold applyFunction at ends
    split at ends
    · rename_i made applied
      cases ends.eq_of_pure
      exact ⟨false, found, expr_ends,
        fun stays => Builtin.presents_of_call applied isArgument stays placed⟩
    · exact (not_ends_stop ends).elim
  · split at ends
    · obtain ⟨contents, shown, ends⟩ := ends.of_bind
      obtain ⟨name, -, ends⟩ := ends.of_bind
      obtain ⟨found, expr_ends, content, isShown, displayed⟩ := ends_shown shown expr among single
      cases ends.eq_of_pure
      refine ⟨false, found, expr_ends, fun _ => ⟨content, displayed, ?_⟩⟩
      -- the arguments stand in a sequence between the parentheses of the second child
      let body := Content.sequence contents argsPlace.span
      let group := Content.lr (some (.plain "(" argsPlace.span)) body
        (some (.plain ")" argsPlace.span)) argsPlace.span
      have inBody : content ∈ body.elements :=
        Content.elements_of_inner isShown (Content.mem_elements_self _)
      have isBody : body ∈ group.inner := by simp [group, Content.inner]
      have isGroup : group ∈ (shownCall name contents argsPlace.span place.span).inner := by
        simp [shownCall, Content.inner, group, body]
      exact Value.presents_of_inner isGroup (Content.elements_of_inner isBody inBody)
    · exact (not_ends_stop ends).elim

theorem presented_of_displayed {outer : Node} (direct : expr ∈ outer.displayed)
    (placed : expr.span ≠ .detached) (ends : (node scope strip outer).Ends value) :
    expr.PresentedBy scope value expr := by
  cases outer with
  | math exprs place =>
      rw [node] at ends
      obtain ⟨children, sequence_ends, ends⟩ := ends.of_bind
      cases ends.eq_of_pure
      obtain ⟨found, expr_ends, shown, among, displayed⟩ := ends_sequence sequence_ends expr direct
      exact ⟨false, found, expr_ends, fun _ => ⟨shown, displayed, Value.presents_inner among⟩⟩
  | contentBlock body bodyPlace place =>
      rw [node] at ends
      obtain ⟨children, sequence_ends, ends⟩ := ends.of_bind
      cases ends.eq_of_pure
      obtain ⟨found, expr_ends, shown, among, displayed⟩ := ends_sequence sequence_ends expr direct
      exact ⟨false, found, expr_ends, fun _ => ⟨shown, displayed, Value.presents_inner among⟩⟩
  | delimited opening body bodyPlace closing place =>
      rw [node] at ends
      obtain ⟨children, sequence_ends, ends⟩ := ends.of_bind
      obtain ⟨found, expr_ends, shown, among, displayed⟩ := ends_sequence sequence_ends expr direct
      refine ⟨false, found, expr_ends, fun _ => ⟨shown, displayed, ?_⟩⟩
      dsimp only at ends
      split at ends
      · cases ends.eq_of_pure
        exact Value.presents_inner among
      · cases ends.eq_of_pure
        let inside := Content.sequence children bodyPlace.span
        have inBody : shown ∈ inside.elements :=
          Content.elements_of_inner among (Content.mem_elements_self _)
        exact Value.presents_of_inner (by simp [Content.inner, inside]) inBody
  | frac num denom place =>
      rw [node] at ends
      obtain ⟨above, num_ends, ends⟩ := ends.of_bind
      obtain ⟨below, denom_ends, ends⟩ := ends.of_bind
      cases ends.eq_of_pure
      rcases List.mem_cons.mp direct with rfl | isDenom
      · exact presentedBy_of_displayed num_ends (by simp [Content.inner])
      · cases List.mem_singleton.mp isDenom
        exact presentedBy_of_displayed denom_ends (by simp [Content.inner])
  | root degree radicand place =>
      rw [node] at ends
      obtain ⟨found, radicand_ends, ends⟩ := ends.of_bind
      cases ends.eq_of_pure
      cases List.mem_singleton.mp direct
      exact presentedBy_of_displayed radicand_ends (by simp [Content.inner])
  | attach base bottom top marks place =>
      rw [node] at ends
      obtain ⟨core, base_ends, ends⟩ := ends.of_bind
      obtain ⟨above, top_ends, ends⟩ := ends.of_bind
      obtain ⟨below, bottom_ends, ends⟩ := ends.of_bind
      cases ends.eq_of_pure
      rcases List.mem_cons.mp direct with rfl | isScript
      · exact presentedBy_of_displayed base_ends (by simp [Content.inner])
      · rcases List.mem_append.mp isScript with isBottom | isTop
        · obtain ⟨shown, rfl, expr_ends⟩ := ends_script bottom_ends expr isBottom
          exact presentedBy_of_displayed expr_ends (by simp [Content.inner])
        · obtain ⟨shown, rfl, expr_ends⟩ := ends_script top_ends expr isTop
          exact presentedBy_of_displayed expr_ends (by simp [Content.inner])
  | call callee args argsPlace place => exact presented_of_call direct placed ends
  | binary lhs op rhs place =>
      cases op with
      | add =>
          rw [node] at ends
          obtain ⟨left, lhs_ends, ends⟩ := ends.of_bind
          obtain ⟨right, rhs_ends, ends⟩ := ends.of_bind
          obtain ⟨isLeft, isRight⟩ := BinaryOp.presents_add ends
          rcases List.mem_cons.mp direct with rfl | isRhs
          · exact ⟨false, left, lhs_ends, isLeft⟩
          · cases List.mem_singleton.mp isRhs
            exact ⟨false, right, rhs_ends, isRight⟩
      | _ => cases direct
  | _ => cases direct

theorem presented_of_cell {row : Node} {cells : List Value}
    (matrix : (node scope false callee).result = .ok (.func .mat))
    (member : row ∈ args.filter Node.isPositional)
    (array : (node scope false row).result = .ok (.array cells))
    (carries : row.Carries scope expr)
    (ends : (node scope strip (.call callee args argsPlace place)).Ends value) :
    expr.PresentedBy scope value row := by
  obtain ⟨among, single⟩ := List.mem_filter.mp member
  rw [node] at ends
  obtain ⟨called, callee_ends, ends⟩ := ends.of_bind
  cases matrix.symm.trans callee_ends.2
  obtain ⟨arguments, taken, ends⟩ := ends.of_bind
  obtain ⟨found, row_ends, isArgument⟩ := (ends_arguments taken).2 row among single
  cases array.symm.trans row_ends.2
  obtain ⟨item, isItem, expr_ends⟩ := carries.exists_item row_ends
  unfold applyFunction at ends
  split at ends
  · rename_i made applied
    cases ends.eq_of_pure
    obtain ⟨shown, isShown, displayed⟩ := Builtin.mem_inner_of_matrix applied isArgument isItem
    exact ⟨false, item, expr_ends, fun _ => ⟨shown, displayed, Value.presents_inner isShown⟩⟩
  · exact (not_ends_stop ends).elim

end

theorem Node.PresentedBy.trans {outer inner middle host : Node} {value : Value}
    (presented : outer.PresentedBy scope value middle)
    (within : ∀ {strip found}, (node scope strip outer).Ends found →
      inner.PresentedBy scope found host) : inner.PresentedBy scope value host := by
  obtain ⟨strip, found, outer_ends, presents⟩ := presented
  obtain ⟨strip', shown, inner_ends, inside⟩ := within outer_ends
  refine ⟨strip', shown, inner_ends, fun stays => ?_⟩
  obtain ⟨content, here, inner_presents⟩ := inside stays
  exact ⟨content, here, (presents inner_presents.1).trans inner_presents⟩

theorem Node.Displays.presented {outer inner host : Node}
    (displays : outer.Displays scope inner host)
    (placed : ∀ expr, outer.Reaches expr → expr.span ≠ .detached) {strip : Bool} {value : Value}
    (ends : (node scope strip outer).Ends value) : inner.PresentedBy scope value host := by
  -- On the way from the outer node to the inner one. That a value keeps its look is known of the
  -- inner one and handed on outwards.
  induction displays generalizing strip value with
  | @here outer expr direct =>
      refine presented_of_displayed direct ?_ ends
      exact placed expr (.through (displayed_subset outer direct) .here)
  | @within outer expr inner host direct displays induction =>
      have reaches : outer.Reaches expr := .through (displayed_subset outer direct) .here
      exact (presented_of_displayed direct (placed expr reaches) ends).trans
        (induction fun other reached => placed other (reaches.trans reached))
  | @grouped expr inner host place displays induction =>
      rw [node] at ends
      refine induction (fun other reached => placed other (.through ?_ reached)) ends
      simp [subexpressions]
  | cell matrix member array carries => exact presented_of_cell matrix member array carries ends
  | @inCell callee row expr inner host args argsPlace place cells matrix member array carries
      displays induction =>
      have reaches : (Node.call callee args argsPlace place).Reaches expr :=
        .through (List.mem_cons_of_mem _ member) carries.reaches
      exact (presented_of_cell matrix member array carries ends).trans
        (induction fun other reached => placed other (reaches.trans reached))

end EquationMap
