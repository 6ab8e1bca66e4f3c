import EquationMap.Proofs.Spans.Evaluation

namespace EquationMap

namespace Outcome

variable {ρ ε α β : Type} {Reported : ρ → Prop} {Stopped : ε → Prop}

/-- Whether all that a pass reports is of some kind, and what it stops at of another. -/
structure Blames (Reported : ρ → Prop) (Stopped : ε → Prop) (outcome : Outcome ρ ε α) :
    Prop where
  reports : ∀ report ∈ outcome.reports, Reported report
  stops : ∀ reason, outcome.result = .error reason → Stopped reason

theorem blames_pure (value : α) : Blames Reported Stopped (pure value : Outcome ρ ε α) := by
  refine ⟨by rintro report ⟨⟩, ?_⟩
  rintro reason ⟨⟩

theorem blames_report {made : ρ} (holds : Reported made) :
    Blames Reported Stopped (report made : Outcome ρ ε Unit) := by
  refine ⟨List.forall_mem_singleton.mpr holds, ?_⟩
  rintro reason ⟨⟩

theorem blames_stop {reason : ε} (holds : Stopped reason) :
    Blames Reported Stopped (stop reason : Outcome ρ ε α) := by
  refine ⟨by rintro report ⟨⟩, ?_⟩
  rintro other ⟨⟩
  exact holds

theorem Blames.bind {first : Outcome ρ ε α} {next : α → Outcome ρ ε β}
    (blames : first.Blames Reported Stopped)
    (later : ∀ value, first.result = .ok value → (next value).Blames Reported Stopped) :
    (first >>= next).Blames Reported Stopped := by
  change (Outcome.bind first next).Blames Reported Stopped
  unfold Outcome.bind
  split
  · rename_i value given
    obtain ⟨reports, stops⟩ := later value given
    exact ⟨List.forall_mem_append.mpr ⟨blames.reports, reports⟩, stops⟩
  · rename_i reason given
    refine ⟨blames.reports, ?_⟩
    rintro other ⟨⟩
    exact blames.stops reason given

end Outcome

open Outcome

variable {scope : Scope} {Known : Span → Prop} {cause : NumberFault → Prop} {α β : Type}

/-- Known spans and causes of faults, and values that may have an integer that is too long only if
there is a cause for that. -/
abbrev Knowledge.traced (Known : Span → Prop) (cause : NumberFault → Prop) : Knowledge where
  span := Known
  value value := value.IsOverlong → cause .integerTooLong
  content := fun _ => True
  fault := cause

theorem Knowledge.closed_traced : (traced Known cause).Closed where
  bare {value} _ none := by
    rintro ⟨number, member, -⟩
    rw [none] at member
    cases member
  item held member long := held (Value.isOverlong_of_item member long)
  entry held member long := held (Value.isOverlong_of_entry member long)
  shown _ _ _ := trivial
  unshown held failed := by
    obtain ⟨rfl, long⟩ := Value.isOverlong_of_display failed
    exact held long
  unlisted held failed := by
    obtain ⟨rfl, long⟩ := Value.isOverlong_of_listing failed
    exact held long
  made _ _ _ := trivial

/-- Whether all errors of an evaluation are at known spans, and the fault of a number that ends it
has a cause. -/
def Evaluation.Traced (Known : Span → Prop) (cause : NumberFault → Prop)
    (evaluation : Evaluation α) : Prop :=
  evaluation.Blames (fun error => Known error.span) (Halt.Of (.traced Known cause))

namespace Evaluation.Traced

theorem pure (value : α) : Traced Known cause (pure value : Evaluation α) :=
  blames_pure value

theorem fail (fault : EvalFault) {span : Span} (known : Known span) :
    Traced Known cause (Evaluation.fail fault span : Evaluation α) :=
  blames_stop known

theorem bind {first : Evaluation α} {next : α → Evaluation β} (traced : first.Traced Known cause)
    (later : ∀ value, first.result = .ok value → (next value).Traced Known cause) :
    (first >>= next).Traced Known cause :=
  Blames.bind traced later

theorem recover {evaluation : Evaluation α} (traced : evaluation.Traced Known cause) :
    (Evaluation.recover evaluation).Traced Known cause := by
  obtain ⟨reports, stops⟩ := traced
  unfold Evaluation.recover
  split
  · refine ⟨reports, ?_⟩
    rintro halt ⟨⟩
  · rename_i error given
    have known : Known error.span := stops _ given
    refine ⟨List.forall_mem_append.mpr ⟨reports, List.forall_mem_singleton.mpr known⟩, ?_⟩
    rintro halt ⟨⟩
  · rename_i fault given
    refine ⟨reports, ?_⟩
    rintro halt ⟨⟩
    exact stops _ given

theorem failNumber {fault : NumberFault} (caused : cause fault) :
    Traced Known cause (Evaluation.failNumber fault : Evaluation α) :=
  blames_stop caused

theorem of_causes {evaluation : Evaluation α} {other : NumberFault → Prop}
    (traced : evaluation.Traced Known other)
    (causes : ∀ fault, evaluation.result = .error (.number fault) → cause fault) :
    evaluation.Traced Known cause := by
  refine ⟨traced.reports, fun halt ends => ?_⟩
  cases halt with
  | error found => exact traced.stops _ ends
  | number fault => exact causes fault ends

end Evaluation.Traced

open Evaluation

/-- Whether the spans and values of a part and of what it is made of are known, and all that goes
wrong in the evaluation of its nodes can be traced. -/
structure TreePart.Traced (Known : Span → Prop) (cause : NumberFault → Prop) (scope : Scope)
    (part : TreePart) : Prop where
  settled : part.Settled (.traced Known cause) scope
  nodes : part.Throughout fun inner => ∀ tree strip, inner = .node tree →
    (Evaluate.node scope strip tree).Traced Known cause

namespace TreePart.Traced

variable {part : TreePart} {tree expr : Node}

theorem of_part (traced : part.Traced Known cause scope) {inner : TreePart}
    (direct : inner ∈ part.parts) : inner.Traced Known cause scope :=
  ⟨traced.settled.of_part direct, Throughout.of_part traced.nodes direct⟩

theorem span (traced : (TreePart.node tree).Traced Known cause scope) : Known tree.span :=
  traced.settled.span

theorem node (traced : (TreePart.node tree).Traced Known cause scope) (strip : Bool) :
    (Evaluate.node scope strip tree).Traced Known cause :=
  traced.nodes _ (TreePart.node tree).mem_subtree_self tree strip rfl

theorem only (traced : (TreePart.node tree).Traced Known cause scope)
    (parts : tree.parts = [.node expr]) : (TreePart.node expr).Traced Known cause scope := by
  refine traced.of_part ?_
  change .node expr ∈ tree.parts
  rw [parts]
  exact List.mem_cons_self

end TreePart.Traced

/-- Whether an operation on the values of two operands stops at the fault of a number. -/
def Node.Overflows (scope : Scope) (fault : NumberFault) (tree : Node) : Prop :=
  ∃ lhs op rhs place left right, tree = .binary lhs op rhs place ∧
    (Evaluate.node scope false lhs).result = .ok left ∧
    (Evaluate.node scope false rhs).result = .ok right ∧
    (op.apply left right lhs.span rhs.span place.span).result = .error (.number fault)

/-- Whether a node has a value with an integer that is too long to be shown. -/
def Node.IsOverlong (scope : Scope) (tree : Node) : Prop :=
  ∃ strip value, (Evaluate.node scope strip tree).result = .ok value ∧ value.IsOverlong

/-- Whether a node is a reason to stop at the fault of a number. -/
def Node.Causes (scope : Scope) (fault : NumberFault) (tree : Node) : Prop :=
  tree.Overflows scope fault ∨ fault = .integerTooLong ∧ tree.IsOverlong scope

namespace Evaluate

section

variable {trees : List Node}

theorem traced_lookup (name : String) {span : Span} (known : Known span) :
    (lookup scope name span).Traced Known cause := by
  unfold lookup
  split
  · exact .pure _
  · exact .fail _ known

theorem traced_fieldOf (target : Value) (name : String) {span : Span} (known : Known span) :
    (fieldOf target name span).Traced Known cause := by
  unfold fieldOf
  split
  · split
    · exact .pure _
    · exact .fail _ known
  · exact .fail _ known

theorem traced_asBool (op : BinaryOp) (value : Value) {span : Span} (known : Known span) :
    (asBool op value span).Traced Known cause := by
  unfold asBool
  split
  · exact .pure _
  · exact .fail _ known

theorem traced_lift {result : Except NumberFault α}
    (causes : ∀ fault, result = .error fault → cause fault) :
    (Evaluation.lift result).Traced Known cause := by
  cases result with
  | ok value => exact .pure _
  | error fault => exact .failNumber (causes fault rfl)

theorem traced_display {value : Value} (span : Span)
    (held : value.IsOverlong → cause .integerTooLong) :
    (Evaluation.lift (value.display span)).Traced Known cause :=
  have closed : (Knowledge.traced Known cause).Closed := Knowledge.closed_traced
  traced_lift fun _ => closed.unshown held

theorem traced_displayed {expr : Node} (traced : (TreePart.node expr).Traced Known cause scope)
    (strip : Bool) : (displayed (node scope strip expr) expr.span).Traced Known cause :=
  (traced.node strip).bind fun value given =>
    traced_display expr.span (traced.settled.node strip value given)

theorem traced_applyFunction (function : Builtin) {arguments : Arguments}
    (given : arguments.Of (.traced Known cause)) :
    (applyFunction function arguments).Traced Known cause := by
  have known := Builtin.known_of_call Knowledge.closed_traced function given
  unfold applyFunction
  cases called : function.call arguments with
  | ok content => exact .pure _
  | error halt =>
      rw [called] at known
      exact blames_stop known

theorem traced_unary (op : UnaryOp) (value : Value) {span : Span} (known : Known span) :
    (op.apply value span).Traced Known cause := by
  unfold UnaryOp.apply
  split
  · exact .pure _
  · exact .pure _
  · exact .pure _
  · exact .fail _ known

theorem traced_ofNumber (result : Except NumberFault Number) (span : Span) :
    (BinaryOp.ofNumber result span).Traced Known fun _ => True := by
  unfold BinaryOp.ofNumber
  split
  · exact .pure _
  · exact .failNumber trivial

theorem traced_binary (op : BinaryOp) (left right : Value) (leftSpan rightSpan : Span)
    {span : Span} (known : Known span) :
    (op.apply left right leftSpan rightSpan span).Traced Known fun _ => True := by
  have number (result : Except NumberFault Number) :
      (BinaryOp.ofNumber result span).Traced Known fun _ => True :=
    traced_ofNumber result span
  cases op with
  | eq | ne => exact .pure _
  | and | or => exact .fail _ known
  | lt | le | gt | ge =>
      unfold BinaryOp.apply
      dsimp only
      split
      · exact .pure _
      · exact .fail _ known
  | sub =>
      unfold BinaryOp.apply
      dsimp only
      split
      · exact number _
      · exact .fail _ known
  | add =>
      have shown : Traced Known (fun _ => True) (do
          let left ← Evaluation.lift (left.display leftSpan)
          let right ← Evaluation.lift (right.display rightSpan)
          return Value.content (.sequence [left, right] span)) :=
        (traced_lift fun _ _ => trivial).bind fun _ _ =>
          (traced_lift fun _ _ => trivial).bind fun _ _ => .pure _
      unfold BinaryOp.apply
      dsimp only
      split
      · exact .pure _
      · exact .pure _
      · exact shown
      · exact shown
      · split
        · exact number _
        · exact .fail _ known
  | mul =>
      unfold BinaryOp.apply
      dsimp only
      split
      · split
        · exact .pure _
        · exact .failNumber trivial
      · split
        · exact .pure _
        · exact .failNumber trivial
      · split
        · exact number _
        · exact .fail _ known
  | div =>
      unfold BinaryOp.apply
      dsimp only
      split
      · split
        · exact .fail _ known
        · exact number _
      · exact .fail _ known

theorem traced_sequence
    (traced : ∀ tree ∈ trees, (TreePart.node tree).Traced Known cause scope) :
    (sequence scope trees).Traced Known cause := by
  induction trees with
  | nil =>
      rw [sequence]
      exact .pure _
  | cons tree rest induction =>
      obtain ⟨here, later⟩ := List.forall_mem_cons.mp traced
      rw [sequence]
      refine (traced_displayed here false).recover.bind fun first _ => ?_
      exact (induction later).bind fun others _ => .pure _

theorem traced_script {expr : Option Node}
    (traced : ∀ tree ∈ expr.toList, (TreePart.node tree).Traced Known cause scope) :
    (script scope expr).Traced Known cause := by
  cases expr with
  | none =>
      rw [script]
      exact .pure _
  | some tree =>
      have here := traced tree (by simp)
      rw [script]
      exact (traced_displayed here true).bind fun value _ => .pure _

theorem traced_items
    (traced : ∀ tree ∈ trees, (TreePart.node tree).Traced Known cause scope) :
    (items scope trees).Traced Known cause := by
  induction trees with
  | nil =>
      rw [items]
      exact .pure _
  | cons tree rest induction =>
      obtain ⟨here, later⟩ := List.forall_mem_cons.mp traced
      unfold items
      split
      · exact .pure _
      · rename_i expr place rest same
        obtain ⟨rfl, rfl⟩ := List.cons.inj same
        refine ((here.only rfl).node false).bind fun value _ => ?_
        split
        · exact (induction later).bind fun values _ => .pure _
        · exact .fail _ here.span
      · rename_i expr rest _ same
        obtain ⟨rfl, rfl⟩ := List.cons.inj same
        refine (here.node false).bind fun first _ => ?_
        exact (induction later).bind fun values _ => .pure _

theorem traced_entries {found : Entries Value}
    (traced : ∀ tree ∈ trees, (TreePart.node tree).Traced Known cause scope) :
    (entries scope found trees).Traced Known cause := by
  induction trees generalizing found with
  | nil =>
      rw [entries]
      exact .pure _
  | cons tree rest induction =>
      obtain ⟨here, later⟩ := List.forall_mem_cons.mp traced
      unfold entries
      split
      · exact .pure _
      · rename_i name expr place rest same
        obtain ⟨rfl, rfl⟩ := List.cons.inj same
        exact ((here.only rfl).node false).bind fun value _ => induction later
      · rename_i key expr place rest same
        obtain ⟨rfl, rfl⟩ := List.cons.inj same
        have before : (TreePart.node key).Traced Known cause scope :=
          here.of_part (by simp [TreePart.parts, Node.parts])
        have inside : (TreePart.node expr).Traced Known cause scope :=
          here.of_part (by simp [TreePart.parts, Node.parts])
        refine (before.node false).bind fun name _ => ?_
        split
        · exact (inside.node false).bind fun value _ => induction later
        · exact .fail _ before.span
      · rename_i expr place rest same
        obtain ⟨rfl, rfl⟩ := List.cons.inj same
        refine ((here.only rfl).node false).bind fun value _ => ?_
        split
        · exact induction later
        · exact .fail _ here.span
      · rename_i other rest _ _ _ same
        obtain ⟨rfl, rfl⟩ := List.cons.inj same
        exact .fail _ here.span

theorem traced_arguments {found : Arguments}
    (traced : ∀ tree ∈ trees, (TreePart.node tree).Traced Known cause scope) :
    (arguments scope found trees).Traced Known cause := by
  induction trees generalizing found with
  | nil =>
      rw [arguments]
      exact .pure _
  | cons tree rest induction =>
      obtain ⟨here, later⟩ := List.forall_mem_cons.mp traced
      unfold arguments
      split
      · exact .pure _
      · rename_i name expr place rest same
        obtain ⟨rfl, rfl⟩ := List.cons.inj same
        exact ((here.only rfl).node false).bind fun value _ => induction later
      · rename_i expr place rest same
        obtain ⟨rfl, rfl⟩ := List.cons.inj same
        refine ((here.only rfl).node false).bind fun value _ => ?_
        split
        · exact induction later
        · exact induction later
        · exact .fail _ here.span
      · rename_i expr rest _ _ same
        obtain ⟨rfl, rfl⟩ := List.cons.inj same
        exact (here.node false).bind fun value _ => induction later

theorem traced_shown {argsSpan : Span} {isFirst : Bool}
    (traced : ∀ tree ∈ trees, (TreePart.node tree).Traced Known cause scope) :
    (shown scope argsSpan isFirst trees).Traced Known cause := by
  induction trees generalizing isFirst with
  | nil =>
      rw [shown]
      exact .pure _
  | cons tree rest induction =>
      obtain ⟨here, later⟩ := List.forall_mem_cons.mp traced
      unfold shown
      split
      · exact .pure _
      · rename_i name expr place rest same
        obtain ⟨rfl, rfl⟩ := List.cons.inj same
        refine (traced_displayed (here.only rfl) false).bind fun value _ => ?_
        exact (induction later).bind fun contents _ => .pure _
      · rename_i expr place rest same
        obtain ⟨rfl, rfl⟩ := List.cons.inj same
        refine (traced_displayed (here.only rfl) false).bind fun value _ => ?_
        exact (induction later).bind fun contents _ => .pure _
      · rename_i expr rest _ _ same
        obtain ⟨rfl, rfl⟩ := List.cons.inj same
        refine (traced_displayed here false).bind fun value _ => ?_
        exact (induction later).bind fun contents _ => .pure _

end

section

variable {place : Place} {strip : Bool}

theorem traced_attach {base : Node} {bottom top : Option Node} {marks : Option Primes}
    (below : ∀ part ∈ (Node.attach base bottom top marks place).parts,
      part.Traced Known cause scope) :
    (node scope strip (.attach base bottom top marks place)).Traced Known cause := by
  have base_traced := below (.node base) (by simp [Node.parts])
  have bottom_traced : ∀ tree ∈ bottom.toList, (TreePart.node tree).Traced Known cause scope := by
    intro tree member
    apply below
    simp [Node.parts, Option.mem_toList.mp member]
  have top_traced : ∀ tree ∈ top.toList, (TreePart.node tree).Traced Known cause scope := by
    intro tree member
    apply below
    simp [Node.parts, Option.mem_toList.mp member]
  rw [node]
  refine (traced_displayed base_traced false).bind fun core _ => ?_
  refine (traced_script top_traced).bind fun above _ => ?_
  exact (traced_script bottom_traced).bind fun under _ => .pure _

theorem traced_call {callee : Node} {args : List Node} {argsPlace : Place}
    (known : Known place.span)
    (below : ∀ part ∈ (Node.call callee args argsPlace place).parts,
      part.Traced Known cause scope) :
    (node scope strip (.call callee args argsPlace place)).Traced Known cause := by
  have called := below (.node callee) (by simp [Node.parts])
  have given : ∀ arg ∈ args, (TreePart.node arg).Traced Known cause scope := by
    intro arg member
    have among := below (.arguments args argsPlace) (by simp [Node.parts])
    exact among.of_part (List.mem_map_of_mem member)
  rw [node]
  refine (called.node false).bind fun value value_given => ?_
  split
  · have none_yet : Arguments.Of (.traced Known cause) ⟨place.span, [], []⟩ :=
      ⟨known, by simp, by simp⟩
    have taken := known_arguments Knowledge.closed_traced none_yet
      fun arg member => (given arg member).settled
    exact (traced_arguments given).bind fun arguments taken_given =>
      traced_applyFunction _ (taken arguments taken_given)
  · split
    · refine (traced_shown given).bind fun contents _ => ?_
      have held := called.settled.node false _ value_given
      exact (traced_display _ held).bind fun name _ => .pure _
    · exact .fail _ called.span

theorem traced_operation {lhs rhs : Node} {op : BinaryOp} (known : Known place.span)
    (own : ∀ fault, (Node.binary lhs op rhs place).Causes scope fault → cause fault)
    (below : ∀ part ∈ (Node.binary lhs op rhs place).parts, part.Traced Known cause scope) :
    (node scope strip (.binary lhs op rhs place)).Traced Known cause := by
  have first := below (.node lhs) (by simp [Node.parts])
  have second := below (.node rhs) (by simp [Node.parts])
  rw [node]
  refine (first.node false).bind fun left left_value => ?_
  split
  · refine (traced_asBool op left known).bind fun truth _ => ?_
    split
    · exact .pure _
    · refine (second.node false).bind fun right _ => ?_
      exact (traced_asBool op right known).bind fun other _ => .pure _
  · refine (second.node false).bind fun right right_value => ?_
    refine (traced_binary op left right _ _ known).of_causes fun fault ends => ?_
    exact own fault
      (.inl ⟨lhs, op, rhs, place, left, right, rfl, left_value, right_value, ends⟩)

end

/-- The fault of a number that ends the evaluation of a node is caused there or by one of its
parts. -/
theorem traced_node {tree : Node} (known : Known tree.span)
    (own : ∀ fault, tree.Causes scope fault → cause fault)
    (below : ∀ part ∈ tree.parts, part.Traced Known cause scope)
    (strip : Bool) : (node scope strip tree).Traced Known cause := by
  have of_list {exprs : List Node} (parts : tree.parts = exprs.map .node) :
      ∀ expr ∈ exprs, (TreePart.node expr).Traced Known cause scope := by
    intro expr member
    refine below _ ?_
    rw [parts]
    exact List.mem_map_of_mem member
  have of_math (exprs : List Node) (place : Place)
      (part : .node (.math exprs place) ∈ tree.parts) :
      ∀ expr ∈ exprs, (TreePart.node expr).Traced Known cause scope :=
    fun expr member => (below _ part).of_part (List.mem_map_of_mem member)
  cases tree with
  | math exprs place =>
      rw [node]
      exact (traced_sequence (of_list rfl)).bind fun children _ => .pure _
  | text | shorthand | alignPoint | linebreak | primes =>
      rw [node]
      exact .pure _
  | int | float | str | bool | noneLit | autoLit =>
      rw [node]
      exact .pure _
  | mathIdent name place | ident name place =>
      rw [node]
      exact traced_lookup name known
  | delimited opening body bodyPlace closing place =>
      rw [node]
      have inside := of_math body bodyPlace (by simp [Node.parts])
      refine (traced_sequence inside).bind fun children _ => ?_
      dsimp only
      split <;> exact .pure _
  | attach => exact traced_attach below
  | frac num denom place =>
      have numerator := below (.node num) (by simp [Node.parts])
      have denominator := below (.node denom) (by simp [Node.parts])
      rw [node]
      refine (traced_displayed numerator true).bind fun above _ => ?_
      exact (traced_displayed denominator true).bind fun under _ => .pure _
  | root degree radicand place =>
      have inside := below (.node radicand) (by simp [Node.parts])
      rw [node]
      exact (traced_displayed inside true).bind fun value _ => .pure _
  | parenthesized expr place =>
      have inside := below (.node expr) (by simp [Node.parts])
      rw [node]
      exact inside.node false
  | array elements place =>
      rw [node]
      exact (traced_items (of_list rfl)).bind fun values _ => .pure _
  | dict elements place =>
      rw [node]
      exact (traced_entries (of_list rfl)).bind fun values _ => .pure _
  | contentBlock body bodyPlace place =>
      have inside := of_math body bodyPlace (by simp [Node.parts])
      rw [node]
      exact (traced_sequence inside).bind fun children _ => .pure _
  | call => exact traced_call known below
  | field target name place =>
      have inside := below (.node target) (by simp [Node.parts])
      rw [node]
      refine (inside.node false).bind fun value _ => ?_
      exact traced_fieldOf value name known
  | binary => exact traced_operation known own below
  | unary op expr place =>
      have inside := below (.node expr) (by simp [Node.parts])
      rw [node]
      refine (inside.node false).bind fun value _ => ?_
      exact traced_unary op value known
  | named | keyed | spread =>
      rw [node]
      exact .fail _ known

end Evaluate

theorem Node.traced {tree : Node} (known : ∀ part ∈ tree.subtree, Known part.place.span) :
    (TreePart.node tree).Traced Known
      (fun fault => ∃ inner, .node inner ∈ tree.subtree ∧ inner.Causes scope fault) scope := by
  let cause fault := ∃ inner, .node inner ∈ tree.subtree ∧ inner.Causes scope fault
  have settled : (TreePart.node tree).Settled (.traced Known cause) scope := by
    refine fun part member => ⟨known part member, ?_⟩
    rintro inner strip rfl value given long
    exact ⟨inner, member, .inr ⟨rfl, strip, value, given, long⟩⟩
  refine ⟨settled, TreePart.throughout fun part member below => ?_⟩
  rintro inner strip rfl
  refine Evaluate.traced_node (known _ member) (fun fault causes => ⟨inner, member, causes⟩)
    (fun direct isDirect => ⟨fun deeper inside => settled deeper ?_, below direct isDirect⟩) strip
  exact (TreePart.subtree_sublist member).subset (TreePart.subtree_subset _ isDirect inside)

theorem Formula.traced {formula : Formula}
    (known : ∀ part ∈ formula.node.subtree, Known part.place.span) :
    (Evaluate.sequence scope formula.exprs).Traced Known fun fault =>
      ∃ tree, .node tree ∈ formula.node.subtree ∧ tree.Causes scope fault :=
  Evaluate.traced_sequence fun _ member =>
    (Node.traced known).of_part (List.mem_map_of_mem member)

theorem Formula.errors_of_evaluate {formula : Formula}
    (known : ∀ part ∈ formula.node.subtree, Known part.place.span) {errors : List EvalError}
    (evaluated : formula.evaluate scope = .error (.errors errors)) :
    errors ≠ [] ∧ ∀ error ∈ errors, Known error.span := by
  have traced : (Evaluate.sequence scope formula.exprs).Traced Known _ := formula.traced known
  unfold evaluate at evaluated
  dsimp only at evaluated
  split at evaluated
  · rename_i children made
    split at evaluated
    · cases evaluated
    · rename_i reported
      cases evaluated
      exact ⟨fun none => reported (List.isEmpty_iff.mpr none), traced.reports⟩
  · rename_i error ended
    cases evaluated
    have here : Known error.span := traced.stops _ ended
    refine ⟨List.append_ne_nil_of_right_ne_nil _ (List.cons_ne_nil _ _), ?_⟩
    exact List.forall_mem_append.mpr ⟨traced.reports, List.forall_mem_singleton.mpr here⟩
  · cases evaluated

end EquationMap
