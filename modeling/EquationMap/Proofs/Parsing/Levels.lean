import EquationMap.Proofs.Parsing.Keeping
import EquationMap.Syntax.Grammar

namespace EquationMap

/-! Each phrase of the grammar takes up a level. What is read inside a construct is read with
fewer levels than the construct. A construct that goes on from an operand wraps a node that has
all levels of its own, and so do the calls and fields that follow it; each of them takes up a
level of the rest, so that a node read with so many levels nests at most as many steps as their
square, and a few more. -/

open Reading

variable {IsEnd : Nat → Prop} {levels steps : Nat}

namespace Grammar

/-- What phrases read with so many levels are. -/
structure Limited (IsEnd : Nat → Prop) (levels : Nat) (deeper : Phrase → Reading Node) :
    Prop where
  atom : ∀ stops, Keeps IsEnd (deeper (.atom stops)) fun node =>
    0 < levels ∧ node.Fits IsEnd levels (levels * levels + 2 - levels)
  script : ∀ {mark : ByteRange}, mark.EndsAt IsEnd → ∀ stops stop,
    Keeps IsEnd (deeper (.script mark stops stop)) fun node =>
      0 < levels ∧ node.Fits IsEnd (levels - 1) (levels * levels + 1 - levels)
  denominator : ∀ {num : Node} {slash : ByteRange} {above steps : Nat}, slash.EndsAt IsEnd →
    num.Fits IsEnd above steps → levels ≤ above → levels * levels + 2 ≤ steps + levels →
    ∀ stops, Keeps IsEnd (deeper (.denominator num slash stops)) fun node =>
      0 < levels ∧ node.Fits IsEnd above (steps + (levels - 1))
  arguments : ∀ {callee : Node} {above steps : Nat}, callee.Fits IsEnd above steps →
    levels < above → levels * levels + 2 ≤ steps →
    Keeps IsEnd (deeper (.arguments callee)) fun node => node.Fits IsEnd above (steps + levels)
  attachedBlock : ∀ {callee : Node} {above steps : Nat}, callee.Fits IsEnd above steps →
    levels < above → levels * levels + 2 ≤ steps →
    Keeps IsEnd (deeper (.attachedBlock callee)) fun node =>
      node.Fits IsEnd above (steps + levels)
  field : ∀ {target : Node} {above steps : Nat}, target.Fits IsEnd above steps →
    levels < above → levels * levels + 2 ≤ steps →
    Keeps IsEnd (deeper (.field target)) fun node => node.Fits IsEnd above (steps + levels)
  expression : ∀ power, Keeps IsEnd (deeper (.expression power)) fun node =>
    0 < levels ∧ node.Fits IsEnd levels (levels * levels + 1)
  operand : ∀ {lhs : Node} {mark : ByteRange} {above steps : Nat}, mark.EndsAt IsEnd →
    lhs.Fits IsEnd above steps → levels ≤ above → levels * levels + 1 ≤ steps →
    ∀ op power, Keeps IsEnd (deeper (.operand lhs op mark power)) fun node =>
      0 < levels ∧ node.Fits IsEnd above (steps + (levels - 1))

theorem primesFrom_keeps {count fuel : Nat} {range : ByteRange} (ends : range.EndsAt IsEnd) :
    Keeps IsEnd (primesFrom count range fuel) fun primes =>
      primes.place.range.EndsAt IsEnd := by
  induction fuel generalizing count range with
  | zero => exact .pure ends
  | succ fuel ih =>
      unfold primesFrom
      refine .bind .isAt fun _ _ => .ite ?_ (.pure ends)
      exact .bind .advance fun mark placed => ih (ends.cover placed)

theorem primes_keeps :
    Keeps IsEnd Grammar.primes fun primes => primes.place.range.EndsAt IsEnd := by
  unfold Grammar.primes
  refine .bind .current fun first placed => .bind .remaining fun _ _ => ?_
  exact primesFrom_keeps (placed.cover placed)

theorem hasClosingBar_keeps {stops : List TokenKind} :
    Keeps IsEnd (hasClosingBar stops) fun _ => True :=
  .looking fun _ _ => trivial

section

variable {deeper : Phrase → Reading Node} (limited : Limited IsEnd levels deeper)
  {stops : List TokenKind} {stop : Option ScriptSide}

include limited

theorem fractionFrom_keeps {num : Node} {above : Nat} (fits : num.Fits IsEnd above steps)
    (inLevels : levels ≤ above) (enough : levels * levels + 2 ≤ steps + levels) :
    Keeps IsEnd (fractionFrom deeper stops num) fun node =>
      node.Fits IsEnd above (steps + (levels - 1)) := by
  have same : num.Fits IsEnd above (steps + (levels - 1)) :=
    fits.mono (Nat.le_refl _) (Nat.le_add_right _ _)
  unfold fractionFrom
  refine .bind .isAt fun _ _ => .ite ?_ (.pure same)
  refine .bind .advance fun slash placed => .bind .endsSequence fun _ _ => .ite ?_ ?_
  · exact .bind (.report placed) fun _ _ => .pure same
  · exact (limited.denominator placed fits inLevels enough stops).mono fun _ kept => kept.2

theorem script_keeps {side : ScriptSide} {mark : Token} (placed : mark.range.EndsAt IsEnd) :
    Keeps IsEnd (script deeper side mark stops stop) fun found => ∀ node ∈ found,
      0 < levels ∧ node.Fits IsEnd (levels - 1) (levels * levels + 1 - levels) := by
  unfold script
  refine .bind .endsSequence fun _ _ => .ite ?_ ?_
  · exact .bind (.report placed) fun _ _ => .none
  · exact (limited.script placed stops stop).some

structure Scripts.Fit (IsEnd : Nat → Prop) (levels steps : Nat) (found : Scripts) : Prop where
  bottom : ∀ node ∈ found.bottom, node.Fits IsEnd levels steps
  top : ∀ node ∈ found.top, node.Fits IsEnd levels steps
  last : ∀ range ∈ found.last, range.EndsAt IsEnd

end

theorem Scripts.Fit.none : Scripts.Fit IsEnd levels steps {} where
  bottom _ member := by cases member
  top _ member := by cases member
  last _ member := by cases member

theorem Scripts.Fit.put {found : Scripts} (fit : found.Fit IsEnd levels steps)
    (side : ScriptSide) {node : Node} (fits : node.Fits IsEnd levels steps) :
    (found.put side node).Fit IsEnd levels steps := by
  have ends : ∀ range ∈ some node.range, range.EndsAt IsEnd := by
    intro range same
    cases same
    exact fits.ends
  have new : ∀ other ∈ some node, other.Fits IsEnd levels steps := by
    intro other same
    cases same
    exact fits
  cases side with
  | below => exact ⟨new, fit.top, ends⟩
  | above => exact ⟨fit.bottom, new, ends⟩

theorem fits_attach {base : Node} {marks : Option Primes} {found : Scripts}
    (fits : base.Fits IsEnd levels (levels * levels + 2 - levels)) (some_levels : 0 < levels)
    (fit : found.Fit IsEnd (levels - 1) (levels * levels + 1 - levels))
    (marks_end : ∀ primes ∈ marks, primes.place.range.EndsAt IsEnd) :
    (Node.attach base found.bottom found.top marks ⟨.cover base.range
      (found.last.getD ((marks.map fun marks => marks.place.range).getD base.range)),
      .detached⟩).Fits IsEnd levels (levels * levels + 2 - levels) := by
  have last_ends : (found.last.getD ((marks.map fun marks => marks.place.range).getD
      base.range)).EndsAt IsEnd := by
    cases last : found.last with
    | some range => exact fit.last range last
    | none =>
        cases marks with
        | some marks => exact marks_end marks rfl
        | none => exact fits.ends
  have square := Nat.le_mul_self levels
  refine .of_parts (fits.ends.cover last_ends) ?_ ?_
  · intro part direct
    rw [List.mem_singleton.mp direct]
    exact fits
  · intro step part direct
    obtain ⟨script, member, same⟩ := List.mem_map.mp direct
    cases same
    refine ⟨levels - 1, levels * levels + 1 - levels, ?_,
      Nat.le_of_eq (Nat.sub_add_cancel some_levels), by omega⟩
    rcases List.mem_append.mp member with isBottom | isTop
    · exact fit.bottom part (Option.mem_toList.mp isBottom)
    · exact fit.top part (Option.mem_toList.mp isTop)

section

variable {deeper : Phrase → Reading Node} (limited : Limited IsEnd levels deeper)
  {stops : List TokenKind} {stop : Option ScriptSide}

include limited

theorem secondScript_keeps {side : ScriptSide} {found : Scripts}
    (fit : found.Fit IsEnd (levels - 1) (levels * levels + 1 - levels)) :
    Keeps IsEnd (secondScript deeper side stops found) fun found =>
      found.Fit IsEnd (levels - 1) (levels * levels + 1 - levels) := by
  unfold secondScript
  refine .bind .isAt fun _ _ => .ite ?_ (.pure fit)
  refine .bind .advance fun mark placed => .bind (script_keeps limited placed) ?_
  intro second fits
  cases second with
  | none => exact .pure fit
  | some node => exact .pure (fit.put side (fits node rfl).2)

theorem scripts_keeps :
    Keeps IsEnd (scripts deeper stops stop) fun found =>
      found.Fit IsEnd (levels - 1) (levels * levels + 1 - levels) := by
  unfold scripts
  refine .bind .current fun token _ => ?_
  split
  · exact .pure .none
  · refine .ite (.pure .none) (.bind .advance fun mark placed => ?_)
    refine .bind (script_keeps limited placed) fun first fits => ?_
    cases first with
    | none => exact .pure .none
    | some node => exact secondScript_keeps limited (Scripts.Fit.none.put _ (fits node rfl).2)

theorem attachment_keeps :
    Keeps IsEnd (attachment deeper stops stop) fun node =>
      0 < levels ∧ node.Fits IsEnd levels (levels * levels + 2 - levels) := by
  unfold attachment
  refine .bind (limited.atom stops) fun base fits => .bind .isAt fun _ _ => ?_
  have absent : Keeps IsEnd (pure none : Reading (Option Primes)) fun marks =>
      ∀ primes ∈ marks, primes.place.range.EndsAt IsEnd := .none
  refine .ite (.bind primes_keeps.some ?_) (.bind absent ?_)
  all_goals
    intro marks ends
    refine .bind (scripts_keeps limited) fun found fit => .ite (.pure fits) (.pure ?_)
    exact ⟨fits.1, fits_attach fits.2 fits.1 fit ends⟩

theorem fraction_keeps :
    Keeps IsEnd (fraction deeper stops) fun node =>
      0 < levels ∧ node.Fits IsEnd levels (levels * levels + 1) := by
  unfold fraction
  refine .bind (attachment_keeps limited) fun num fits => ?_
  have square := Nat.le_mul_self levels
  refine (fractionFrom_keeps limited fits.2 (Nat.le_refl _) ?_).mono fun node kept => ?_
  · omega
  · exact ⟨fits.1, kept.mono (Nat.le_refl _) (by omega)⟩

theorem sequenceFrom_keeps {found : List Node} {fuel : Nat}
    (fit : ∀ node ∈ found, 0 < levels ∧ node.Fits IsEnd levels (levels * levels + 1)) :
    Keeps IsEnd (sequenceFrom deeper stops found fuel) fun nodes =>
      ∀ node ∈ nodes, 0 < levels ∧ node.Fits IsEnd levels (levels * levels + 1) := by
  have reversed : ∀ node ∈ found.reverse,
      0 < levels ∧ node.Fits IsEnd levels (levels * levels + 1) :=
    fun node member => fit node (List.mem_reverse.mp member)
  induction fuel generalizing found with
  | zero => exact .pure reversed
  | succ fuel ih =>
      unfold sequenceFrom
      refine .bind .endsSequence fun _ _ => .ite (.pure reversed) ?_
      refine .bind .remaining fun _ _ => .bind (.attempt (fraction_keeps limited)) ?_
      intro attempted fits
      cases attempted with
      | none =>
          refine .bind .remaining fun _ _ => .ite ?_ (ih fit reversed)
          exact .bind .advance fun _ _ => ih fit reversed
      | some expr =>
          have more : ∀ node ∈ expr :: found,
              0 < levels ∧ node.Fits IsEnd levels (levels * levels + 1) :=
            List.forall_mem_cons.mpr ⟨fits expr rfl, fit⟩
          have goes_on := ih more fun node member => more node (List.mem_reverse.mp member)
          refine .bind .endsSequence fun _ _ => .ite ?_ goes_on
          cases operatorSymbol? expr with
          | none => exact goes_on
          | some symbol => exact .bind (.report (fits expr rfl).2.ends) fun _ _ => goes_on

theorem sequence_keeps :
    Keeps IsEnd (sequence deeper stops) fun nodes =>
      ∀ node ∈ nodes, 0 < levels ∧ node.Fits IsEnd levels (levels * levels + 1) := by
  unfold sequence
  refine .bind .remaining fun _ _ => sequenceFrom_keeps limited ?_
  exact fun _ member => by cases member

theorem delimited_keeps {closer : TokenKind} :
    Keeps IsEnd (delimited deeper closer) fun node =>
      node.Fits IsEnd (levels + 1) (levels * levels + 2) := by
  unfold delimited
  refine .bind .advance fun opening opens => .bind (sequence_keeps limited) fun body fit => ?_
  have within (closing : Delimiter) (ends : (opening.range.cover closing.place.range).EndsAt IsEnd)
      (starts : IsEnd closing.place.range.start) : Keeps IsEnd (do
        let inside ← Reading.range opening.range.stop closing.place.range.start
        return .delimited ⟨opening.value, { range := opening.range }⟩ body { range := inside }
          closing { range := .cover opening.range closing.place.range }) fun node : Node =>
        node.Fits IsEnd (levels + 1) (levels * levels + 2) :=
    .bind (.range opens.stop starts) fun inside _ =>
      .pure (.around ends rfl rfl fun part member => (fit part member).2)
  refine .bind .isAt fun _ _ => .ite ?_ ?_
  · exact .bind .advance fun token closes => within _ (opens.cover closes) closes.start
  · exact .bind (.report opens) fun _ _ => .bind .current fun token here =>
      within ⟨"", { range := .empty token.range.start }⟩
        (opens.cover ⟨here.start, here.start⟩) here.start

theorem argumentValue_keeps :
    Keeps IsEnd (argumentValue deeper) fun node =>
      node.Fits IsEnd levels (levels * levels + levels) := by
  unfold argumentValue
  refine .bind .current fun token starts => .bind (sequence_keeps limited) fun exprs fit => ?_
  have fits : ∀ expr ∈ exprs, expr.Fits IsEnd levels (levels * levels + levels) := by
    intro expr member
    obtain ⟨some_levels, fits⟩ := fit expr member
    exact fits.mono (Nat.le_refl _) (by omega)
  have stop_isEnd : IsEnd ((exprs.getLast?.map fun expr => expr.range.stop).getD
      token.range.start) := by
    cases last : exprs.getLast? with
    | none => exact starts.start
    | some expr => exact (fits expr (List.mem_of_getLast? last)).ends.stop
  have whole : Keeps IsEnd (do
      let range ← Reading.range token.range.start
        ((exprs.getLast?.map fun expr => expr.range.stop).getD token.range.start)
      return Node.math exprs { range }) fun node =>
        node.Fits IsEnd levels (levels * levels + levels) :=
    .bind (.range starts.start stop_isEnd) fun range ends => .pure (.beside ends rfl fits)
  rcases exprs with _ | ⟨expr, _ | ⟨second, others⟩⟩
  · exact whole
  · exact .pure (fits expr List.mem_cons_self)
  · exact whole

theorem argument_keeps :
    Keeps IsEnd (argument deeper) fun node =>
      node.Fits IsEnd levels (levels * levels + levels) := by
  unfold argument
  refine .bind .current fun token starts => .bind .peek fun _ _ => .ite ?_ ?_
  · refine .bind .advance fun _ _ => .bind .advance fun _ _ => ?_
    refine .bind (argumentValue_keeps limited) fun value fits => .pure ?_
    refine .beside (starts.cover fits.ends) rfl fun part direct => ?_
    rw [List.mem_singleton.mp direct]
    exact fits
  · exact argumentValue_keeps limited

end

structure ArgumentRows.Fit (IsEnd : Nat → Prop) (levels steps : Nat) (found : ArgumentRows) :
    Prop where
  row : ∀ node ∈ found.row, node.Fits IsEnd levels steps
  rows : ∀ row ∈ found.rows, ∀ node ∈ row, node.Fits IsEnd levels steps
  named : ∀ node ∈ found.named, node.Fits IsEnd levels steps

namespace ArgumentRows.Fit

variable {found : ArgumentRows}

theorem empty : Fit IsEnd levels steps {} where
  row _ member := by cases member
  rows _ member := by cases member
  named _ member := by cases member

theorem add (fit : found.Fit IsEnd levels steps) {node : Node}
    (fits : node.Fits IsEnd levels steps) : (found.add node).Fit IsEnd levels steps := by
  have appended {nodes : List Node} (known : ∀ node ∈ nodes, node.Fits IsEnd levels steps) :
      ∀ other ∈ nodes ++ [node], other.Fits IsEnd levels steps := by
    intro other member
    rcases List.mem_append.mp member with earlier | last
    · exact known other earlier
    · rw [List.mem_singleton.mp last]
      exact fits
  unfold ArgumentRows.add
  split
  · exact ⟨fit.row, fit.rows, appended fit.named⟩
  · exact ⟨appended fit.row, fit.rows, fit.named⟩

theorem rows_and_row (fit : found.Fit IsEnd levels steps) :
    ∀ row ∈ found.rows ++ [found.row], ∀ node ∈ row, node.Fits IsEnd levels steps := by
  intro row member
  rcases List.mem_append.mp member with earlier | last
  · exact fit.rows row earlier
  · rw [List.mem_singleton.mp last]
    exact fit.row

theorem endRow (fit : found.Fit IsEnd levels steps) : found.endRow.Fit IsEnd levels steps where
  row _ member := by cases member
  rows := fit.rows_and_row
  named := fit.named

theorem of_arrayOf {row : List Node} {item : Node}
    (fits : ∀ node ∈ row, node.Fits IsEnd levels steps) (made : arrayOf? row = some item) :
    ∃ items place, item = .array items place ∧ item.Fits IsEnd (levels + 1) (steps + 1) := by
  cases row with
  | nil => cases made
  | cons first rest =>
      cases made
      have last_ends : (rest.getLast?.getD first).range.EndsAt IsEnd := by
        cases last : rest.getLast? with
        | none => exact (fits first List.mem_cons_self).ends
        | some node =>
            exact (fits node (List.mem_cons_of_mem _ (List.mem_of_getLast? last))).ends
      refine ⟨first :: rest, _, rfl, .around ?_ rfl rfl fits⟩
      exact (fits first List.mem_cons_self).ends.cover last_ends

theorem items (fit : found.Fit IsEnd levels steps) : ∀ item ∈ found.items,
    item.Fits IsEnd levels steps ∨
      ∃ nodes place, item = .array nodes place ∧
        item.Fits IsEnd (levels + 1) (steps + 1) := by
  intro item member
  unfold ArgumentRows.items at member
  split at member
  · rcases List.mem_append.mp member with inRows | inNamed
    · obtain ⟨row, isRow, made⟩ := List.mem_filterMap.mp inRows
      exact .inr (of_arrayOf (fit.rows_and_row row isRow) made)
    · exact .inl (fit.named item inNamed)
  · rcases List.mem_append.mp member with inRow | inNamed
    · exact .inl (fit.row item inRow)
    · exact .inl (fit.named item inNamed)

end ArgumentRows.Fit

theorem fits_mathCall {name : String} {found : ArgumentRows} {namePlace argsPlace place : Place}
    (name_ends : namePlace.range.EndsAt IsEnd) (ends : place.range.EndsAt IsEnd)
    (fit : found.Fit IsEnd levels steps) :
    (Node.call (.mathIdent name namePlace) found.items argsPlace place).Fits IsEnd
      (levels + 1) (steps + 2) := by
  refine .of_parts ends (by simp [Node.alongside]) ?_
  intro step part direct
  rcases List.mem_cons.mp direct with same | isArg
  · cases same
    refine ⟨levels, steps, .leaf name_ends rfl rfl, Nat.le_succ _, by omega⟩
  · obtain ⟨item, isItem, same⟩ := List.mem_map.mp isArg
    cases same
    rcases fit.items part isItem with fits | ⟨nodes, arrayPlace, rfl, fits⟩
    · refine ⟨levels, steps, fits, Nat.add_le_add_left ?_ levels, by omega⟩
      unfold Nesting.levels
      split
      · exact Nat.le_refl _
      · exact Nat.zero_le _
      · exact Nat.zero_le _
    · exact ⟨levels + 1, steps + 1, fits, Nat.le_refl _, Nat.lt_succ_self _⟩

section

variable {deeper : Phrase → Reading Node} (limited : Limited IsEnd levels deeper)

include limited

theorem argumentsFrom_keeps {found : ArgumentRows} {fuel : Nat}
    (fit : found.Fit IsEnd levels (levels * levels + levels)) :
    Keeps IsEnd (argumentsFrom deeper found fuel) fun found =>
      found.Fit IsEnd levels (levels * levels + levels) := by
  induction fuel generalizing found with
  | zero => exact .pure fit
  | succ fuel ih =>
      unfold argumentsFrom
      refine .bind .current fun token _ => .ite (.pure fit) ?_
      refine .bind (argument_keeps limited) fun argument fits => .bind .current fun next _ => ?_
      have more := fit.add fits
      split
      · exact .bind .advance fun _ _ => ih more
      · exact .bind .advance fun _ _ => ih more.endRow
      · exact ih more

theorem mathCall_keeps :
    Keeps IsEnd (mathCall deeper) fun node =>
      node.Fits IsEnd (levels + 1) (levels * levels + levels + 2) := by
  unfold mathCall
  refine .bind .advance fun name named => .bind .advance fun opening opens => ?_
  refine .bind .remaining fun _ _ => .bind (argumentsFrom_keeps limited .empty) ?_
  intro found fit
  refine .bind .isAt fun _ _ => .ite ?_ ?_
  · exact .bind .advance fun closing closes =>
      .pure (fits_mathCall named (named.cover closes) fit)
  · exact .bind (.report opens) fun _ _ => .bind .current fun closing closes =>
      .pure (fits_mathCall named (named.cover closes) fit)

end

end Grammar

end EquationMap
