import EquationMap.Proofs.Parsing.Forward
import EquationMap.Proofs.Spacing.Reading
import EquationMap.Proofs.Tree.Bare
import EquationMap.Syntax.Grammar

namespace EquationMap.Grammar

open Reading

@[simp]
theorem operatorSymbol?_bare (node : Node) : operatorSymbol? node.bare = operatorSymbol? node := by
  cases node <;> rfl

@[simp]
theorem isPrimes_bare (node : Node) : isPrimes node.bare = isPrimes node := by
  cases node <;> rfl

/-- Whether two expressions of code differ in their ranges alone, and what comes next is attached
to both of them or to neither. -/
structure Operands (low low' : Nat) (expr expr' : Node) (cursor cursor' : Cursor) : Prop where
  same : expr.bare = expr'.bare
  joins : Cursor.Joins low low' expr.range expr'.range cursor cursor'

theorem Operands.joins_cover {low low' : Nat} {expr expr' : Node}
    {first first' cursor cursor' : Cursor} {last last' : ByteRange}
    (operands : Operands low low' expr expr' first first')
    (joins : Cursor.Joins first.current.range.start first'.current.range.start last last' cursor
      cursor') :
    Cursor.Joins low low' (.cover expr.range last) (.cover expr'.range last') cursor cursor' :=
  (joins.lower operands.joins.start operands.joins.start').cover operands.joins.low
    operands.joins.low'

/-- Whether phrases of every sort are read alike. -/
structure ReadAlike (deeper : Phrase → Reading Node) : Prop where
  atom : ∀ stops, Agrees Node.bare (deeper (.atom stops)) (deeper (.atom stops))
  script : ∀ mark mark' stops stop,
    Agrees Node.bare (deeper (.script mark stops stop)) (deeper (.script mark' stops stop))
  denominator : ∀ {num num' : Node}, num.bare = num'.bare → ∀ slash slash' stops,
    Agrees Node.bare (deeper (.denominator num slash stops))
      (deeper (.denominator num' slash' stops))
  arguments : ∀ {low low' callee callee' cursor cursor'}, cursor.Alike low low' cursor' →
    Operands low low' callee callee' cursor cursor' →
    Agree low low' (fun node node' _ _ => node.bare = node'.bare)
      (deeper (.arguments callee) cursor) (deeper (.arguments callee') cursor')
  attachedBlock : ∀ {low low' callee callee' cursor cursor'}, cursor.Alike low low' cursor' →
    Operands low low' callee callee' cursor cursor' →
    Agree low low' (fun node node' _ _ => node.bare = node'.bare)
      (deeper (.attachedBlock callee) cursor) (deeper (.attachedBlock callee') cursor')
  field : ∀ {low low' target target' cursor cursor'}, cursor.Alike low low' cursor' →
    Operands low low' target target' cursor cursor' →
    Agree low low' (fun node node' _ _ => node.bare = node'.bare)
      (deeper (.field target) cursor) (deeper (.field target') cursor')
  expression : ∀ power,
    Agrees Node.bare (deeper (.expression power)) (deeper (.expression power))
  operand : ∀ {lhs lhs' : Node}, lhs.bare = lhs'.bare → ∀ op mark mark' power,
    Agrees Node.bare (deeper (.operand lhs op mark power)) (deeper (.operand lhs' op mark' power))

theorem primesFrom_agrees (count : Nat) (last last' : ByteRange) (fuel : Nat) :
    Agrees Primes.bare (primesFrom count last fuel) (primesFrom count last' fuel) := by
  induction fuel generalizing count last last' with
  | zero => exact .pure rfl
  | succ fuel induction =>
      unfold primesFrom
      refine .bindSame .isAt fun _ => .ite ?_ (.pure rfl)
      exact .bindToken .advance fun _ _ _ _ => induction _ _ _

theorem primes_agrees : Agrees Primes.bare Grammar.primes Grammar.primes := by
  unfold Grammar.primes
  refine .bindToken .current fun _ _ _ _ => .bindSame .remaining fun _ => ?_
  exact primesFrom_agrees _ _ _ _

theorem closesBar_alike {stops : List TokenKind} {tokens tokens' : List Token}
    (alike : List.Forall₂ Token.Alike tokens tokens') (depth : Nat) :
    closesBar stops depth tokens = closesBar stops depth tokens' := by
  induction alike generalizing depth with
  | nil => rfl
  | cons first _ induction =>
      unfold closesBar
      rw [first.kind, induction, induction, induction]

theorem hasClosingBar_agrees {stops : List TokenKind} :
    Agrees id (hasClosingBar stops) (hasClosingBar stops) := by
  refine .looking fun alike => ?_
  cases alike.tokens.forall₂ with
  | cons _ rest => exact closesBar_alike rest 0

namespace Scripts

def bare (scripts : Scripts) : Scripts where
  bottom := scripts.bottom.map Node.bare
  top := scripts.top.map Node.bare
  last := scripts.last.map fun _ => .empty 0

theorem bare_put (scripts : Scripts) (side : ScriptSide) (node : Node) :
    (scripts.put side node).bare = scripts.bare.put side node.bare := by
  cases side <;> simp [put, bare]

end Scripts

section

variable {deeper : Phrase → Reading Node} (alike : ReadAlike deeper) {stops : List TokenKind}
  {stop : Option ScriptSide}

include alike

theorem fractionFrom_agrees {num num' : Node} (same : num.bare = num'.bare) :
    Agrees Node.bare (fractionFrom deeper stops num) (fractionFrom deeper stops num') := by
  unfold fractionFrom
  refine .bindSame .isAt fun _ => .ite ?_ (.pure same)
  refine .bindToken .advance fun _ _ _ _ => .bindSame .endsSequence fun _ => .ite ?_ ?_
  · exact .bindSame .report fun _ => .pure same
  · exact alike.denominator same _ _ stops

theorem script_agrees {side : ScriptSide} {mark mark' : Token} :
    Agrees (Option.map Node.bare) (script deeper side mark stops stop)
      (script deeper side mark' stops stop) := by
  unfold script
  refine .bindSame .endsSequence fun _ => .ite ?_ ?_
  · exact .bindSame .report fun _ => .pure rfl
  · exact (alike.script _ _ stops stop).map fun _ _ same => congrArg some same

theorem secondScript_agrees {side : ScriptSide} {scripts scripts' : Scripts}
    (same : scripts.bare = scripts'.bare) :
    Agrees Scripts.bare (secondScript deeper side stops scripts)
      (secondScript deeper side stops scripts') := by
  unfold secondScript
  refine .bindSame .isAt fun _ => .ite ?_ (.pure same)
  refine .bindToken .advance fun _ _ _ _ => .bindOption (script_agrees alike) (.pure same) ?_
  intro node node' sameNode
  refine .pure ?_
  rw [Scripts.bare_put, Scripts.bare_put, same, sameNode]

theorem scripts_agrees :
    Agrees Scripts.bare (scripts deeper stops stop) (scripts deeper stops stop) := by
  unfold scripts
  refine .bindToken .current fun kind _ _ _ => ?_
  dsimp only
  split
  · exact .pure rfl
  · refine .ite (.pure rfl) (.bindToken .advance fun _ _ _ _ => ?_)
    refine .bindOption (script_agrees alike) (.pure rfl) fun node node' same => ?_
    refine secondScript_agrees alike ?_
    rw [Scripts.bare_put, Scripts.bare_put, same]

theorem attachment_agrees :
    Agrees Node.bare (attachment deeper stops stop) (attachment deeper stops stop) := by
  unfold attachment
  refine .bind (alike.atom stops) fun base base' same => .bindSame .isAt fun _ => ?_
  rw [← isPrimes_bare base, ← isPrimes_bare base', same]
  have present : Agrees (Option.map Primes.bare) (some <$> Grammar.primes)
      (some <$> Grammar.primes) := primes_agrees.map fun _ _ same => congrArg some same
  have absent : Agrees (Option.map Primes.bare) (pure none) (pure none) := .pure rfl
  refine .ite (.bind present ?_) (.bind absent ?_)
  all_goals
    intro marks marks' sameMarks
    refine .bind (scripts_agrees alike) fun found found' sameScripts => ?_
    have noMarks : marks.isNone = marks'.isNone := by
      simpa using congrArg Option.isNone sameMarks
    have noScripts : found.last.isNone = found'.last.isNone := by
      simpa [Scripts.bare] using congrArg (fun scripts => scripts.last.isNone) sameScripts
    rw [noMarks, noScripts]
    refine .ite (.pure same) (.pure ?_)
    have sameBottom := congrArg Scripts.bottom sameScripts
    have sameTop := congrArg Scripts.top sameScripts
    dsimp only [Scripts.bare] at sameBottom sameTop
    simp [Node.bare, same, sameMarks, sameBottom, sameTop, Place.bare]

theorem fraction_agrees :
    Agrees Node.bare (fraction deeper stops) (fraction deeper stops) :=
  .bind (attachment_agrees alike) fun _ _ same => fractionFrom_agrees alike same

theorem sequenceFrom_agrees {found found' : List Node}
    (same : found.map Node.bare = found'.map Node.bare) (fuel : Nat) :
    Agrees (List.map Node.bare) (sequenceFrom deeper stops found fuel)
      (sequenceFrom deeper stops found' fuel) := by
  have reversed : found.reverse.map Node.bare = found'.reverse.map Node.bare := by
    rw [List.map_reverse, List.map_reverse, same]
  induction fuel generalizing found found' with
  | zero => exact .pure reversed
  | succ fuel induction =>
      unfold sequenceFrom
      refine .bindSame .endsSequence fun _ => .ite (.pure reversed) ?_
      refine .bindSame .remaining fun before => ?_
      refine .bindOption (.attempt (fraction_agrees alike)) ?_ fun expr expr' sameExpr => ?_
      · refine .bindSame .remaining fun after => .ite ?_ (induction same reversed)
        exact .bindToken .advance fun _ _ _ _ => induction same reversed
      · have more : (expr :: found).map Node.bare = (expr' :: found').map Node.bare := by
          rw [List.map_cons, List.map_cons, sameExpr, same]
        have goes_on := induction more (by rw [List.map_reverse, List.map_reverse, more])
        have noneBefore : found.isEmpty = found'.isEmpty := by
          simpa using congrArg List.isEmpty same
        dsimp only
        rw [noneBefore, ← operatorSymbol?_bare expr, ← operatorSymbol?_bare expr', sameExpr]
        refine .bindSame .endsSequence fun _ => .ite ?_ goes_on
        cases operatorSymbol? expr'.bare with
        | none => exact goes_on
        | some symbol => exact .bindSame .report fun _ => goes_on

theorem sequence_agrees :
    Agrees (List.map Node.bare) (sequence deeper stops) (sequence deeper stops) :=
  .bindSame .remaining fun _ => sequenceFrom_agrees alike rfl _

variable [forward : ∀ phrase, GoesForward (deeper phrase)]

theorem delimited_agrees {closer : TokenKind} :
    Agrees Node.bare (delimited deeper closer) (delimited deeper closer) where
  ends {low low' cursor cursor'} before := by
    unfold delimited
    rw [advance_bind, advance_bind]
    refine ((sequence_agrees alike).ends before.next).bind_read ?_
    intro body body' last last' read read' later same
    -- The closing token comes after the opening one, so the body has a range.
    have ordered := before.inOrder.le_of_next
      ((GoesForward.completed read).tokens.subset List.mem_cons_self)
    have ordered' := before.inOrder'.le_of_next
      ((GoesForward.completed read').tokens.subset List.mem_cons_self)
    have opening := before.current.value
    have closing := later.current.value
    rw [isAt_bind, isAt_bind]
    refine .ite (by rw [later.current.kind]) (fun _ => ?_) fun _ => ?_
    · rw [advance_bind, advance_bind, pure_bind, pure_bind]
      refine .ranging ordered ordered' fun _ _ => .completed later.next ?_
      simp [Node.bare, same, Place.bare, Delimiter.bare, opening, closing]
    · rw [report_bind, report_bind, current_bind, current_bind, pure_bind, pure_bind]
      refine .ranging ordered ordered' fun _ _ => .completed (later.report _ _ _) ?_
      simp [Node.bare, same, Place.bare, Delimiter.bare, opening]

variable [StartsInPlace deeper]

theorem argumentValue_agrees :
    Agrees Node.bare (argumentValue deeper) (argumentValue deeper) where
  ends {low low' cursor cursor'} before := by
    unfold argumentValue
    rw [current_bind, current_bind]
    refine ((sequence_agrees alike).ends before).bind_read ?_
    intro exprs exprs' last last' read read' later same
    have ordered := start_le_of_sequence deeper before.inOrder read
    have ordered' := start_le_of_sequence deeper before.inOrder' read'
    have several : Node.bare (.math exprs { range := .empty 0 }) =
        Node.bare (.math exprs' { range := .empty 0 }) := by
      simp [Node.bare, same, Place.bare]
    rcases exprs with _ | ⟨expr, _ | ⟨second, others⟩⟩ <;>
      rcases exprs' with _ | ⟨expr', _ | ⟨second', others'⟩⟩ <;>
      simp only [List.map_cons, List.map_nil, List.cons.injEq, reduceCtorEq, and_false,
        and_true] at same
    · exact .ranging ordered ordered' fun _ _ => .completed later several
    · exact .completed later same
    · exact .ranging ordered ordered' fun _ _ => .completed later several

theorem argument_agrees : Agrees Node.bare (argument deeper) (argument deeper) := by
  unfold argument
  refine .bindToken .current fun kind value _ _ => .bindToken .peek fun _ _ _ _ => .ite ?_ ?_
  · refine .bindToken .advance fun _ _ _ _ => .bindToken .advance fun _ _ _ _ => ?_
    refine .bind (argumentValue_agrees alike) fun _ _ same => .pure ?_
    simp [Node.bare, same, Place.bare]
  · exact argumentValue_agrees alike

end

namespace ArgumentRows

def bare (found : ArgumentRows) : ArgumentRows where
  row := found.row.map Node.bare
  rows := found.rows.map (List.map Node.bare)
  named := found.named.map Node.bare
  hasRows := found.hasRows

theorem bare_add (found : ArgumentRows) (node : Node) :
    (found.add node).bare = found.bare.add node.bare := by
  cases node <;> simp [add, bare, Node.bare]

theorem bare_endRow (found : ArgumentRows) : found.endRow.bare = found.bare.endRow := by
  simp [endRow, bare]

theorem map_bare_arrayOf? (row : List Node) :
    (arrayOf? row).map Node.bare = arrayOf? (row.map Node.bare) := by
  cases row with
  | nil => rfl
  | cons first rest =>
      have ranges : (first.bare.range.cover ((rest.map Node.bare).getLast?.getD first.bare).range) =
          .empty 0 := by
        rw [List.getLast?_map, Option.getD_map, Node.range_bare, Node.range_bare]
        rfl
      simp only [List.map_cons, arrayOf?, Option.map_some, ranges, Node.bare, Node.bareList_eq,
        Place.bare]

theorem map_bare_items (found : ArgumentRows) :
    found.items.map Node.bare = found.bare.items := by
  have arrays (rows : List (List Node)) : (rows.filterMap arrayOf?).map Node.bare =
      (rows.map (List.map Node.bare)).filterMap arrayOf? := by
    simp only [List.map_filterMap, List.filterMap_map, Function.comp_def, map_bare_arrayOf?]
  cases hasRows : found.hasRows <;>
    simp [items, bare, hasRows, arrays, List.filterMap_append]

end ArgumentRows

section

variable {deeper : Phrase → Reading Node} (alike : ReadAlike deeper)
  [∀ phrase, GoesForward (deeper phrase)] [StartsInPlace deeper]

include alike

theorem argumentsFrom_agrees {found found' : ArgumentRows} (same : found.bare = found'.bare)
    (fuel : Nat) :
    Agrees ArgumentRows.bare (argumentsFrom deeper found fuel)
      (argumentsFrom deeper found' fuel) := by
  induction fuel generalizing found found' with
  | zero => exact .pure same
  | succ fuel induction =>
      unfold argumentsFrom
      refine .bindToken .current fun _ _ _ _ => .ite (.pure same) ?_
      refine .bind (argument_agrees alike) fun argument argument' sameArgument => ?_
      have more : (found.add argument).bare = (found'.add argument').bare := by
        rw [ArgumentRows.bare_add, ArgumentRows.bare_add, same, sameArgument]
      have moreRows : (found.add argument).endRow.bare = (found'.add argument').endRow.bare := by
        rw [ArgumentRows.bare_endRow, ArgumentRows.bare_endRow, more]
      refine .bindToken .current fun kind _ _ _ => ?_
      dsimp only
      split
      · exact .bindToken .advance fun _ _ _ _ => induction more
      · exact .bindToken .advance fun _ _ _ _ => induction moreRows
      · exact induction more

theorem mathCall_agrees : Agrees Node.bare (mathCall deeper) (mathCall deeper) := by
  unfold mathCall
  refine .bindToken .advance fun _ name _ _ => .bindToken .advance fun _ _ _ _ => ?_
  refine .bindSame .remaining fun _ => .bind (argumentsFrom_agrees alike rfl _) ?_
  intro found found' same
  have sameItems : found.items.map Node.bare = found'.items.map Node.bare := by
    rw [ArgumentRows.map_bare_items, ArgumentRows.map_bare_items, same]
  refine .bindSame .isAt fun _ => .ite ?_ ?_
  · refine .bindToken .advance fun _ _ _ _ => .pure ?_
    simp [Node.bare, sameItems, Place.bare]
  · refine .bindSame .report fun _ => .bindToken .current fun _ _ _ _ => .pure ?_
    simp [Node.bare, sameItems, Place.bare]

end

end EquationMap.Grammar
