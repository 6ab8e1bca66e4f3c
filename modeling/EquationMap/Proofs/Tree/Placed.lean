import EquationMap.Proofs.Tree.Ranges

namespace EquationMap

open Grammar

variable {IsEnd : Nat → Prop} {start stop : Nat}

namespace Grammar.Scripts.Placed

variable {found : Scripts}

theorem empty (start : Nat) : Scripts.Placed IsEnd start {} where
  le := Nat.le_refl start
  inside := by
    intro side node isScript
    cases side <;> cases isScript
  apart := by
    intro bottom top isBottom
    cases isBottom
  isStop := by
    intro range isLast
    cases isLast

@[simp]
theorem stopFrom_put (side : ScriptSide) (node : Node) :
    (found.put side node).stopFrom start = node.range.stop := by
  cases side <;> rfl

theorem put (placed : found.Placed IsEnd start) {side : ScriptSide} {node : Node}
    (tidy : node.Tidy IsEnd) (le : found.stopFrom start ≤ node.range.start) :
    (found.put side node).Placed IsEnd start := by
  have start_le := placed.le
  have ordered := node.range.ordered
  have earlier : ∀ other {script}, found.on other = some script →
      start ≤ script.range.start ∧ script.range.stop ≤ node.range.stop ∧
        script.Tidy IsEnd ∧ script.range.Apart node.range := by
    intro other script isScript
    obtain ⟨after, before, script_tidy⟩ := placed.inside isScript
    exact ⟨after, by omega, script_tidy, .inl (by omega)⟩
  refine ⟨?_, ?_, ?_, ?_⟩
  · rw [stopFrom_put]
    omega
  · intro other script isScript
    rw [stopFrom_put]
    have here : start ≤ node.range.start ∧ node.range.stop ≤ node.range.stop ∧
        node.Tidy IsEnd := ⟨by omega, Nat.le_refl _, tidy⟩
    cases side <;> cases other
    · cases isScript
      exact here
    · obtain ⟨after, before, script_tidy, -⟩ := earlier .above isScript
      exact ⟨after, before, script_tidy⟩
    · obtain ⟨after, before, script_tidy, -⟩ := earlier .below isScript
      exact ⟨after, before, script_tidy⟩
    · cases isScript
      exact here
  · intro bottom top isBottom isTop
    cases side
    · cases isBottom
      exact (earlier .above isTop).2.2.2.symm
    · cases isTop
      exact (earlier .below isBottom).2.2.2
  · intro range isLast
    cases side <;> cases isLast <;> exact tidy.isStop

end Grammar.Scripts.Placed

theorem Node.tidy_of_one (node : Node) {expr : Node} (parts : node.parts = [.node expr])
    (tidy : expr.Tidy IsEnd) (start_le : node.range.start ≤ expr.range.start)
    (le_stop : expr.range.stop ≤ node.range.stop) (isStart : IsEnd node.range.start)
    (isStop : IsEnd node.range.stop)
    (subexpressions : node.subexpressions = [expr] ∨ node.subexpressions = []) :
    node.Tidy IsEnd := by
  refine (InRow.single tidy start_le le_stop).node_tidy parts (Nat.le_refl _) (Nat.le_refl _)
    isStart isStop ?_ ?_
  · rcases subexpressions with one | none
    · rw [one]
      exact List.pairwise_singleton _ _
    · rw [none]
      exact .nil
  · intro key other place same
    cases same
    cases parts

theorem Node.tidy_after (node : Node) {expr : Node} {first : ByteRange}
    (parts : node.parts = [.node expr]) (range : node.range = .cover first expr.range)
    (isStart : IsEnd first.start) (tidy : expr.Tidy IsEnd)
    (before : first.stop ≤ expr.range.start)
    (subexpressions : node.subexpressions = [expr] ∨ node.subexpressions = []) :
    node.Tidy IsEnd ∧ node.range.stop = expr.range.stop := by
  have first_ordered := first.ordered
  have stop : node.range.stop = expr.range.stop := by
    rw [range]
    exact ByteRange.stop_cover_of_before before
  have node_start : node.range.start = first.start := by
    rw [range]
    rfl
  refine ⟨Node.tidy_of_one node parts tidy ?_ ?_ ?_ ?_ subexpressions, stop⟩
  · omega
  · omega
  · rw [node_start]
    exact isStart
  · rw [stop]
    exact tidy.isStop

theorem Node.tidy_of_two (node : Node) {first second : Node}
    (parts : node.parts = [.node first, .node second])
    (range : node.range = .cover first.range second.range) (first_tidy : first.Tidy IsEnd)
    (second_tidy : second.Tidy IsEnd) (before : first.range.stop ≤ second.range.start)
    (subexpressions : node.subexpressions = [first, second] ∨ node.subexpressions = []) :
    node.Tidy IsEnd ∧ node.range.stop = second.range.stop := by
  have row := (InRow.single first_tidy (Nat.le_refl _) (Nat.le_refl _)).snoc second_tidy before
  have stop : node.range.stop = second.range.stop := by
    rw [range]
    exact ByteRange.stop_cover_of_le row.le
  refine ⟨row.node_tidy parts ?_ (Nat.le_of_eq stop.symm) ?_ ?_ ?_ ?_, stop⟩
  · rw [range]
    exact Nat.le_refl _
  · rw [range]
    exact first_tidy.isStart
  · rw [stop]
    exact second_tidy.isStop
  · rcases subexpressions with both | none
    · rw [both]
      exact row.apart
    · rw [none]
      exact .nil
  · intro key expr place same
    cases same
    cases parts
    exact .inl before

theorem Node.mem_attach_parts {base : Node} {primes : Option Primes} {found : Scripts}
    {place : Place} {inner : TreePart}
    (member : inner ∈ (Node.attach base found.bottom found.top primes place).parts) :
    inner = .node base ∨ (∃ side script, found.on side = some script ∧ inner = .node script) ∨
      ∃ run, primes = some run ∧ inner = .node (.primes run) := by
  simp only [Node.parts, List.cons_append, List.mem_cons, List.mem_append, List.mem_map,
    Option.mem_toList] at member
  rcases member with rfl | (⟨script, isScript, rfl⟩ | ⟨script, isScript, rfl⟩) |
    ⟨run, isRun, rfl⟩
  · exact .inl rfl
  · exact .inr (.inl ⟨.below, script, isScript, rfl⟩)
  · exact .inr (.inl ⟨.above, script, isScript, rfl⟩)
  · exact .inr (.inr ⟨run, isRun, rfl⟩)

theorem Node.attach_tidy {base : Node} {primes : Option Primes} {found : Scripts}
    (base_tidy : base.Tidy IsEnd) (le : base.range.stop ≤ primesStop base.range.stop primes)
    (run_placed : ∀ run, primes = some run → base.range.stop ≤ run.place.range.start ∧
      IsEnd run.place.range.start ∧ IsEnd run.place.range.stop)
    (scripts : found.Placed IsEnd (primesStop base.range.stop primes)) :
    (attachedRange base primes found).stop =
        found.stopFrom (primesStop base.range.stop primes) ∧
      (Node.attach base found.bottom found.top primes
        ⟨attachedRange base primes found, .detached⟩).Tidy IsEnd := by
  have base_ordered := base.range.ordered
  have scripts_le := scripts.le
  have stop : (attachedRange base primes found).stop =
      found.stopFrom (primesStop base.range.stop primes) := by
    have last : (found.last.getD ((primes.map fun primes => primes.place.range).getD
        base.range)).stop = found.stopFrom (primesStop base.range.stop primes) := by
      unfold Scripts.stopFrom primesStop
      cases found.last <;> cases primes <;> rfl
    unfold attachedRange
    rw [← last, ByteRange.stop_cover_of_le]
    omega
  -- The attachment ends with its last script, or else with its primes, or else with its base.
  have isStop : IsEnd (attachedRange base primes found).stop := by
    rw [stop]
    unfold Scripts.stopFrom primesStop
    cases last : found.last with
    | some range => exact scripts.isStop last
    | none =>
        cases primes with
        | some run => exact (run_placed run rfl).2.2
        | none => exact base_tidy.isStop
  have script_placed : ∀ side {script}, found.on side = some script →
      base.range.stop ≤ script.range.start ∧
        script.range.stop ≤ (attachedRange base primes found).stop ∧ script.Tidy IsEnd := by
    intro side script isScript
    obtain ⟨after, before, tidy⟩ := scripts.inside isScript
    exact ⟨by omega, by omega, tidy⟩
  refine ⟨stop, Node.tidy_of_parts ⟨base_tidy.isStart, isStop, ?_, ?_, by simp⟩ ?_⟩
  · intro inner member
    change inner ∈ (Node.attach base found.bottom found.top primes
      ⟨attachedRange base primes found, .detached⟩).parts at member
    rw [ByteRange.contains_iff]
    change base.range.start ≤ _ ∧ _ ≤ (attachedRange base primes found).stop
    rcases Node.mem_attach_parts member with rfl | ⟨side, script, isScript, rfl⟩ | ⟨run, rfl, rfl⟩
    · change _ ≤ base.range.start ∧ base.range.stop ≤ _
      omega
    · obtain ⟨after, before, -⟩ := script_placed side isScript
      change _ ≤ script.range.start ∧ script.range.stop ≤ _
      omega
    · obtain ⟨after, -⟩ := run_placed run rfl
      change base.range.start ≤ run.place.range.start ∧ run.place.range.stop ≤ _
      change run.place.range.stop ≤ found.stopFrom _ at scripts_le
      omega
  · refine .cons ?_ ?_
    · intro script member
      left
      rcases List.mem_append.mp member with isBottom | isTop
      · exact (script_placed .below (Option.mem_toList.mp isBottom)).1
      · exact (script_placed .above (Option.mem_toList.mp isTop)).1
    · cases isBottom : found.bottom <;> cases isTop : found.top <;> simp
      exact scripts.apart isBottom isTop
  · intro inner member
    rcases Node.mem_attach_parts member with rfl | ⟨side, script, isScript, rfl⟩ | ⟨run, rfl, rfl⟩
    · exact base_tidy
    · exact (script_placed side isScript).2.2
    · obtain ⟨-, isStart, isStop⟩ := run_placed run rfl
      exact Node.tidy_of_no_parts rfl rfl isStart isStop

theorem Node.delimited_tidy {opening closing : Token} {body : List Node} {stop : Nat}
    {rest : List Token}
    (opening_start : IsEnd opening.range.start) (opening_stop : IsEnd opening.range.stop)
    (row : InRow IsEnd opening.range.stop body stop)
    (laid : Laid IsEnd stop (closing :: rest)) :
    (Node.delimited ⟨opening.value, ⟨opening.range, .detached⟩⟩ body
      ⟨.between opening.range.stop closing.range.start, .detached⟩
      ⟨closing.value, ⟨closing.range, .detached⟩⟩
      ⟨.cover opening.range closing.range, .detached⟩).Tidy IsEnd := by
  obtain ⟨before, closing_start, closing_stop, -⟩ := laid
  have opening_ordered := opening.range.ordered
  have closing_ordered := closing.range.ordered
  have row_le := row.le
  -- The tokens are in order, so of the two offsets of a range the later one is its end.
  have middle : max opening.range.stop closing.range.start = closing.range.start := by omega
  have final : max opening.range.start closing.range.stop = closing.range.stop := by omega
  have isMiddle : IsEnd (max opening.range.stop closing.range.start) := by
    rw [middle]
    exact closing_start
  have isFinal : IsEnd (max opening.range.start closing.range.stop) := by
    rw [final]
    exact closing_stop
  refine Node.tidy_of_parts ⟨opening_start, isFinal, ?_, row.apart, by simp⟩ ?_
  · intro inner member
    simp only [Node.parts, TreePart.parts, List.mem_cons, List.not_mem_nil, or_false] at member
    rw [ByteRange.contains_iff]
    rcases member with rfl | rfl | rfl
    · change opening.range.start ≤ opening.range.start ∧
        opening.range.stop ≤ max opening.range.start closing.range.stop
      omega
    · change opening.range.start ≤ opening.range.stop ∧
        max opening.range.stop closing.range.start ≤ max opening.range.start closing.range.stop
      omega
    · change opening.range.start ≤ closing.range.start ∧
        closing.range.stop ≤ max opening.range.start closing.range.stop
      omega
  · intro inner member
    simp only [Node.parts, List.mem_cons, List.not_mem_nil, or_false] at member
    rcases member with rfl | rfl | rfl
    · exact Node.tidy_of_no_parts rfl rfl opening_start opening_stop
    · refine row.math_tidy (Nat.le_refl _) ?_ opening_stop isMiddle
      exact Nat.le_trans before (Nat.le_max_right _ _)
    · exact Node.tidy_of_no_parts rfl rfl closing_start closing_stop

theorem Node.call_tidy {callee : Node} {args : List Node} {argsPlace place : Place}
    (callee_tidy : callee.Tidy IsEnd)
    (args_inside : ∀ arg ∈ args, argsPlace.range.start ≤ arg.range.start ∧
      arg.range.stop ≤ argsPlace.range.stop ∧ arg.Tidy IsEnd)
    (args_apart : (args.filter Node.isPositional).Pairwise fun a b => a.range.Apart b.range)
    (isStart : IsEnd argsPlace.range.start) (isStop : IsEnd argsPlace.range.stop)
    (before : callee.range.stop ≤ argsPlace.range.start)
    (place_start : place.range.start = callee.range.start)
    (place_stop : place.range.stop = argsPlace.range.stop) :
    (Node.call callee args argsPlace place).Tidy IsEnd := by
  have callee_ordered := callee.range.ordered
  have args_ordered := argsPlace.range.ordered
  have arguments_inside : ∀ inner ∈ args.map TreePart.node,
      argsPlace.range.contains inner.range = true := by
    intro inner member
    obtain ⟨arg, isArg, rfl⟩ := List.mem_map.mp member
    obtain ⟨after, within, -⟩ := args_inside arg isArg
    exact ByteRange.contains_iff.mpr ⟨after, within⟩
  refine Node.tidy_of_parts ⟨?_, ?_, ?_, ?_, by simp⟩ ?_
  · change IsEnd place.range.start
    rw [place_start]
    exact callee_tidy.isStart
  · change IsEnd place.range.stop
    rw [place_stop]
    exact isStop
  · intro inner member
    simp only [Node.parts, TreePart.parts, List.mem_cons, List.not_mem_nil, or_false] at member
    rw [ByteRange.contains_iff]
    change place.range.start ≤ _ ∧ _ ≤ place.range.stop
    rcases member with rfl | rfl
    · change _ ≤ callee.range.start ∧ callee.range.stop ≤ _
      omega
    · change _ ≤ argsPlace.range.start ∧ argsPlace.range.stop ≤ _
      omega
  · refine .cons ?_ args_apart
    intro arg member
    obtain ⟨after, -, -⟩ := args_inside arg (List.mem_filter.mp member).1
    exact .inl (Nat.le_trans before after)
  · intro inner member
    simp only [Node.parts, List.mem_cons, List.not_mem_nil, or_false] at member
    rcases member with rfl | rfl
    · exact callee_tidy
    · intro part inside
      rw [TreePart.subtree_eq] at inside
      rcases List.mem_cons.mp inside with rfl | below
      · exact ⟨isStart, isStop, arguments_inside, .nil, by simp⟩
      · obtain ⟨inner, direct, inside⟩ := List.mem_flatMap.mp below
        obtain ⟨arg, isArg, rfl⟩ := List.mem_map.mp direct
        exact (args_inside arg isArg).2.2 part inside

theorem placed_of_cover {outer : Role} {node : Node} {first last : ByteRange}
    {rest : List Token} (range : node.range = .cover first last) (before : start ≤ first.start)
    (tidy : node.Tidy IsEnd) (stop : node.range.stop = last.stop)
    (after : Laid IsEnd last.stop rest) : (Writing.one outer node).Placed IsEnd start rest := by
  have node_start : node.range.start = first.start := by
    rw [range]
    rfl
  refine ⟨by omega, tidy, ?_⟩
  rw [stop]
  exact after

theorem placed_after {outer inner : Role} (node : Node) {expr : Node} {first : Token}
    {offset : Nat} {rest : List Token} (parts : node.parts = [.node expr])
    (range : node.range = .cover first.range expr.range)
    (subexpressions : node.subexpressions = [expr] ∨ node.subexpressions = [])
    (before : start ≤ first.range.start) (isStart : IsEnd first.range.start)
    (between : first.range.stop ≤ offset)
    (expr_placed : (Writing.one inner expr).Placed IsEnd offset rest) :
    (Writing.one outer node).Placed IsEnd start rest := by
  obtain ⟨apart, expr_tidy, after⟩ := expr_placed
  obtain ⟨tidy, stop⟩ := Node.tidy_after node parts range isStart expr_tidy (by omega)
    subexpressions
  exact placed_of_cover range before tidy stop after

theorem placed_two {outer left right : Role} (node : Node) {first second : Node}
    {mark : Token} {middle rest : List Token}
    (parts : node.parts = [.node first, .node second])
    (range : node.range = .cover first.range second.range)
    (subexpressions : node.subexpressions = [first, second] ∨ node.subexpressions = [])
    (first_placed : (Writing.one left first).Placed IsEnd start (mark :: middle))
    (second_placed : Laid IsEnd mark.range.stop middle →
      (Writing.one right second).Placed IsEnd mark.range.stop rest) :
    (Writing.one outer node).Placed IsEnd start rest := by
  obtain ⟨before, first_tidy, mark_after, -, -, afterMark⟩ := first_placed
  obtain ⟨apart, second_tidy, after⟩ := second_placed afterMark
  have mark_ordered := mark.range.ordered
  obtain ⟨tidy, stop⟩ := Node.tidy_of_two node parts range first_tidy second_tidy (by omega)
    subexpressions
  exact placed_of_cover range before tidy stop after

/-- Expressions of a sequence are placed from its first token to the end of the last of them. -/
theorem placed_sequence {outer inner : Role} {exprs : List Node} {head : Token}
    {tokens rest : List Token} (laid : Laid IsEnd start (head :: tokens))
    (exprs_placed : ∀ {start}, Laid IsEnd start (head :: tokens) →
      (Writing.many inner exprs).Placed IsEnd start rest) :
    (Writing.one outer (.math exprs
      ⟨.between head.range.start (lastStop head.range.start exprs), .detached⟩)).Placed
        IsEnd start rest := by
  obtain ⟨before, isStart, isStop, after⟩ := laid
  -- The sequence starts where its first token does and not where blanks before it do.
  have tight : Laid IsEnd head.range.start (head :: tokens) :=
    ⟨Nat.le_refl _, isStart, isStop, after⟩
  obtain ⟨row, after⟩ := exprs_placed tight
  have stop : (ByteRange.between head.range.start
      (lastStop head.range.start exprs)).stop = lastStop head.range.start exprs :=
    Nat.max_eq_right row.le
  refine ⟨before, row.math_tidy (Nat.le_refl _) ?_ isStart ?_, ?_⟩
  · exact Nat.le_of_eq stop.symm
  · simp only [stop]
    exact isEnd_lastStop row isStart
  · change Laid IsEnd (ByteRange.between _ _).stop _
    rw [stop]
    exact after

theorem placed_group {role : Role} (node : Node) (items : List Node) {opening closing : Token}
    {rest : List Token} (parts : node.parts = items.map .node)
    (range : node.range = .cover opening.range closing.range)
    (before : start ≤ opening.range.start) (isStart : IsEnd opening.range.start)
    (row : InRow IsEnd opening.range.stop items stop)
    (laid : Laid IsEnd stop (closing :: rest))
    (apart : node.subexpressions.Pairwise fun a b => a.range.Apart b.range)
    (noPair : isPair node = false) : (Writing.one role node).Placed IsEnd start rest := by
  obtain ⟨closing_after, -, closing_stop, after⟩ := laid
  have le := row.le
  have opening_ordered := opening.range.ordered
  have closing_ordered := closing.range.ordered
  have node_start : node.range.start = opening.range.start := by
    rw [range]
    rfl
  have node_stop : node.range.stop = closing.range.stop := by
    rw [range]
    exact ByteRange.stop_cover_of_before (by omega)
  refine ⟨by omega, row.node_tidy parts (by omega) (by omega) ?_ ?_ apart ?_, ?_⟩
  · rw [node_start]
    exact isStart
  · rw [node_stop]
    exact closing_stop
  · intro key expr place same
    rw [same] at noPair
    cases noPair
  · rw [node_stop]
    exact after

theorem placed_contentBlock {outer inner : Role} {body : List Node} {opening closing : Token}
    {middle rest : List Token} (laid : Laid IsEnd start (opening :: middle))
    (body_placed : Laid IsEnd opening.range.stop middle →
      (Writing.many inner body).Placed IsEnd opening.range.stop (closing :: rest)) :
    (Writing.one outer (.contentBlock body
      ⟨.between opening.range.stop closing.range.start, .detached⟩
      ⟨.cover opening.range closing.range, .detached⟩)).Placed IsEnd start rest := by
  obtain ⟨before, isStart, isStop, afterOpening⟩ := laid
  obtain ⟨row, afterBody⟩ := body_placed afterOpening
  have le := row.le
  have closing_after := afterBody.1
  have body_stop : (ByteRange.between opening.range.stop closing.range.start).stop =
      closing.range.start := Nat.max_eq_right (by omega)
  have body_tidy : (Node.math body
      ⟨.between opening.range.stop closing.range.start, .detached⟩).Tidy IsEnd := by
    refine row.math_tidy (Nat.le_refl _) ?_ isStop ?_
    · simp only [body_stop]
      exact closing_after
    · simp only [body_stop]
      exact afterBody.2.1
  refine placed_group _ [_] rfl rfl before isStart
    (.single body_tidy (Nat.le_refl _) (Nat.le_of_eq body_stop)) ?_ row.apart rfl
  exact ⟨Nat.le_refl _, afterBody.2⟩

theorem placed_mathCall {role : Role} {name opening closing : Token} {found : ArgumentRows}
    {middle rest : List Token} (laid : Laid IsEnd start (name :: opening :: middle))
    (found_placed : Laid IsEnd opening.range.stop middle →
      (Writing.rows found).Placed IsEnd opening.range.stop (closing :: rest)) :
    (Writing.one role (.call (.mathIdent name.value ⟨name.range, .detached⟩) found.items
      ⟨.cover opening.range closing.range, .detached⟩
      ⟨.cover name.range closing.range, .detached⟩)).Placed IsEnd start rest := by
  obtain ⟨before, name_start, name_stop, opening_after, opening_start, -, afterOpening⟩ := laid
  obtain ⟨stop, placed, closing_after, -, closing_stop, after⟩ := found_placed afterOpening
  obtain ⟨args_inside, args_apart⟩ := placed.items
  have le := placed.positional.le
  have name_ordered := name.range.ordered
  have opening_ordered := opening.range.ordered
  have closing_ordered := closing.range.ordered
  have args_stop : (ByteRange.cover opening.range closing.range).stop =
      closing.range.stop := ByteRange.stop_cover_of_before (by omega)
  have call_stop : (ByteRange.cover name.range closing.range).stop = closing.range.stop :=
    ByteRange.stop_cover_of_before (by omega)
  refine ⟨before, ?_, ?_⟩
  · refine Node.call_tidy (Node.tidy_of_no_parts rfl rfl name_start name_stop) ?_ args_apart
      opening_start ?_ opening_after rfl ?_
    · intro arg member
      obtain ⟨after_opening, before_closing, tidy⟩ := args_inside arg member
      simp only [ByteRange.start_cover, args_stop]
      exact ⟨by omega, by omega, tidy⟩
    · simp only [args_stop]
      exact closing_stop
    · simp only [args_stop, call_stop]
  · change Laid IsEnd (ByteRange.cover name.range closing.range).stop _
    rw [call_stop]
    exact after

theorem placed_blockCall {outer left right : Role} {callee block : Node} {middle rest : List Token}
    (callee_placed : (Writing.one left callee).Placed IsEnd start middle)
    (block_placed : Laid IsEnd callee.range.stop middle →
      (Writing.one right block).Placed IsEnd callee.range.stop rest) :
    (Writing.one outer (.call callee [block] ⟨block.range, .detached⟩
      ⟨.cover callee.range block.range, .detached⟩)).Placed IsEnd start rest := by
  obtain ⟨before, callee_tidy, afterCallee⟩ := callee_placed
  obtain ⟨block_after, block_tidy, after⟩ := block_placed afterCallee
  have stop : (ByteRange.cover callee.range block.range).stop = block.range.stop :=
    ByteRange.stop_cover_of_before block_after
  refine ⟨before, ?_, ?_⟩
  · refine Node.call_tidy callee_tidy ?_ ?_ block_tidy.isStart block_tidy.isStop block_after
      rfl stop
    · intro arg member
      rw [List.mem_singleton.mp member]
      exact ⟨Nat.le_refl _, Nat.le_refl _, block_tidy⟩
    · exact (List.pairwise_singleton _ _).sublist List.filter_sublist
  · change Laid IsEnd (ByteRange.cover _ _).stop _
    rw [stop]
    exact after

theorem placed_field {outer inner : Role} {target : Node} {dot name : Token} {rest : List Token}
    (target_placed : (Writing.one inner target).Placed IsEnd start (dot :: name :: rest)) :
    (Writing.one outer (.field target name.value
      ⟨.cover target.range name.range, .detached⟩)).Placed IsEnd start rest := by
  obtain ⟨before, target_tidy, dot_after, -, -, name_after, -, name_stop, after⟩ :=
    target_placed
  have dot_ordered := dot.range.ordered
  have name_ordered := name.range.ordered
  have stop : (ByteRange.cover target.range name.range).stop = name.range.stop :=
    ByteRange.stop_cover_of_before (by omega)
  refine ⟨before, ?_, ?_⟩
  · refine Node.tidy_of_one (.field target name.value
      ⟨.cover target.range name.range, .detached⟩) rfl target_tidy (Nat.le_refl _) ?_
      target_tidy.isStart ?_ (.inr rfl)
    · change _ ≤ (ByteRange.cover _ _).stop
      omega
    · change IsEnd (ByteRange.cover _ _).stop
      rw [stop]
      exact name_stop
  · change Laid IsEnd (ByteRange.cover _ _).stop _
    rw [stop]
    exact after

theorem placed_call {callee : Node} {args blocks : List Node} {opening closing : Token}
    {middle afterArgs rest : List Token}
    (callee_placed :
      (Writing.one .operand callee).Placed IsEnd start (opening :: middle))
    (args_placed : Laid IsEnd opening.range.stop middle →
      (Writing.many .item args).Placed IsEnd opening.range.stop (closing :: afterArgs))
    (blocks_placed : Laid IsEnd closing.range.stop afterArgs →
      (Writing.many .block blocks).Placed IsEnd closing.range.stop rest) :
    (Writing.one .operand (.call callee (args ++ blocks)
      ⟨.cover opening.range (lastRange closing.range blocks), .detached⟩
      ⟨.cover callee.range (lastRange closing.range blocks), .detached⟩)).Placed
        IsEnd start rest := by
  obtain ⟨before, callee_tidy, opening_after, opening_start, -, afterOpening⟩ := callee_placed
  obtain ⟨args_row, closing_after, closing_start, closing_stop, afterClosing⟩ :=
    args_placed afterOpening
  obtain ⟨blocks_row, after⟩ := blocks_placed afterClosing
  have last_stop := stop_lastRange closing.range blocks
  have opening_ordered := opening.range.ordered
  have closing_ordered := closing.range.ordered
  have callee_ordered := callee.range.ordered
  have args_le := args_row.le
  have blocks_le := blocks_row.le
  have row := args_row.append blocks_row (by omega)
  have args_stop : (ByteRange.cover opening.range (lastRange closing.range blocks)).stop =
      lastStop closing.range.stop blocks := by
    rw [ByteRange.stop_cover_of_le (by omega), last_stop]
  have call_stop : (ByteRange.cover callee.range (lastRange closing.range blocks)).stop =
      lastStop closing.range.stop blocks := by
    rw [ByteRange.stop_cover_of_le (by omega), last_stop]
  refine ⟨before, ?_, ?_⟩
  · refine Node.call_tidy callee_tidy ?_ (row.apart.sublist List.filter_sublist) opening_start
      ?_ opening_after rfl ?_
    · intro arg member
      obtain ⟨after_opening, before_last⟩ := row.inside arg member
      simp only [ByteRange.start_cover, args_stop]
      exact ⟨by omega, before_last, row.tidy arg member⟩
    · simp only [args_stop]
      exact isEnd_lastStop blocks_row closing_stop
    · simp only [args_stop, call_stop]
  · change Laid IsEnd (ByteRange.cover _ _).stop _
    rw [call_stop]
    exact after

theorem placed_attach {outer : Role} {base : Node} {primes : Option Primes} {found : Scripts}
    {afterBase afterPrimes rest : List Token}
    (base_placed : (Writing.one .operand base).Placed IsEnd start afterBase)
    (marks : Marks primes afterBase afterPrimes)
    (scripts_placed : Laid IsEnd (primesStop base.range.stop primes) afterPrimes →
      (Writing.scripts found).Placed IsEnd (primesStop base.range.stop primes) rest) :
    (Writing.one outer (.attach base found.bottom found.top primes
      ⟨attachedRange base primes found, .detached⟩)).Placed IsEnd start rest := by
  obtain ⟨before, base_tidy, afterBase⟩ := base_placed
  obtain ⟨le, afterPrimes, run_placed⟩ := marks.placed afterBase
  obtain ⟨scripts, after⟩ := scripts_placed afterPrimes
  obtain ⟨stop, tidy⟩ := Node.attach_tidy base_tidy le run_placed scripts
  refine ⟨before, tidy, ?_⟩
  change Laid IsEnd (attachedRange _ _ _).stop _
  rw [stop]
  exact after

theorem placed_delimited {outer inner : Role} {body : List Node} {opening closing : Token}
    {middle rest : List Token} (laid : Laid IsEnd start (opening :: middle))
    (body_placed : Laid IsEnd opening.range.stop middle →
      (Writing.many inner body).Placed IsEnd opening.range.stop (closing :: rest)) :
    (Writing.one outer (.delimited ⟨opening.value, ⟨opening.range, .detached⟩⟩ body
      ⟨.between opening.range.stop closing.range.start, .detached⟩
      ⟨closing.value, ⟨closing.range, .detached⟩⟩
      ⟨.cover opening.range closing.range, .detached⟩)).Placed IsEnd start rest := by
  obtain ⟨before, isStart, isStop, afterOpening⟩ := laid
  obtain ⟨row, afterBody⟩ := body_placed afterOpening
  refine ⟨before, Node.delimited_tidy isStart isStop row afterBody, ?_⟩
  obtain ⟨closing_after, -, -, after⟩ := afterBody
  change Laid IsEnd (ByteRange.cover opening.range closing.range).stop _
  rw [ByteRange.stop_cover_of_before (Nat.le_trans row.le closing_after)]
  exact after

theorem placed_marked {outer inner : Role} (node : Node) {expr : Node} {mark : Token}
    {middle rest : List Token} (parts : node.parts = [.node expr])
    (range : node.range = .cover mark.range expr.range)
    (subexpressions : node.subexpressions = [expr] ∨ node.subexpressions = [])
    (laid : Laid IsEnd start (mark :: middle))
    (expr_placed : Laid IsEnd mark.range.stop middle →
      (Writing.one inner expr).Placed IsEnd mark.range.stop rest) :
    (Writing.one outer node).Placed IsEnd start rest := by
  obtain ⟨before, isStart, -, afterMark⟩ := laid
  exact placed_after node parts range subexpressions before isStart (Nat.le_refl _)
    (expr_placed afterMark)

theorem placed_named {outer inner : Role} {name colon : Token} {value : Node}
    {middle rest : List Token} (laid : Laid IsEnd start (name :: colon :: middle))
    (value_placed : Laid IsEnd colon.range.stop middle →
      (Writing.one inner value).Placed IsEnd colon.range.stop rest) :
    (Writing.one outer (.named name.value value
      ⟨.cover name.range value.range, .detached⟩)).Placed IsEnd start rest := by
  obtain ⟨before, isStart, -, colon_after, -, -, afterColon⟩ := laid
  have colon_ordered := colon.range.ordered
  exact placed_after _ rfl rfl (.inr rfl) before isStart (by omega) (value_placed afterColon)

theorem placed_items {outer inner : Role} (node : Node) (items : List Node)
    {opening closing : Token} {middle rest : List Token} (parts : node.parts = items.map .node)
    (range : node.range = .cover opening.range closing.range)
    (noPair : isPair node = false) (laid : Laid IsEnd start (opening :: middle))
    (items_placed : Laid IsEnd opening.range.stop middle →
      (Writing.many inner items).Placed IsEnd opening.range.stop (closing :: rest))
    (apart : ∀ {stop}, InRow IsEnd opening.range.stop items stop →
      node.subexpressions.Pairwise fun a b => a.range.Apart b.range) :
    (Writing.one outer node).Placed IsEnd start rest := by
  obtain ⟨before, isStart, -, afterOpening⟩ := laid
  obtain ⟨row, afterItems⟩ := items_placed afterOpening
  exact placed_group node items parts range before isStart row afterItems (apart row) noPair

theorem placed_more {outer inner : Role} {nodes : List Node} {node : Node}
    {middle rest : List Token}
    (nodes_placed : (Writing.many outer nodes).Placed IsEnd start middle)
    (node_placed : Laid IsEnd (lastStop start nodes) middle →
      (Writing.one inner node).Placed IsEnd (lastStop start nodes) rest) :
    (Writing.many outer (nodes ++ [node])).Placed IsEnd start rest := by
  obtain ⟨row, afterNodes⟩ := nodes_placed
  obtain ⟨node_after, node_tidy, after⟩ := node_placed afterNodes
  change InRow IsEnd start (nodes ++ [node]) (lastStop start (nodes ++ [node])) ∧
    Laid IsEnd (lastStop start (nodes ++ [node])) rest
  rw [lastStop_concat]
  exact ⟨row.snoc node_tidy node_after, after⟩

theorem placed_script {found : Scripts} {side : ScriptSide} {node : Node} {mark : Token}
    {middle rest : List Token}
    (found_placed : (Writing.scripts found).Placed IsEnd start (mark :: middle))
    (node_placed : Laid IsEnd mark.range.stop middle →
      (Writing.one .operand node).Placed IsEnd mark.range.stop rest) :
    (Writing.scripts (found.put side node)).Placed IsEnd start rest := by
  obtain ⟨placed, mark_after, -, -, afterMark⟩ := found_placed
  obtain ⟨node_after, node_tidy, after⟩ := node_placed afterMark
  have mark_ordered := mark.range.ordered
  refine ⟨placed.put node_tidy (by omega), ?_⟩
  rw [Scripts.Placed.stopFrom_put]
  exact after

theorem Laid.drop {mark : Token} {rest : List Token} (laid : Laid IsEnd start (mark :: rest)) :
    Laid IsEnd start rest := by
  obtain ⟨mark_after, -, -, after⟩ := laid
  have mark_ordered := mark.range.ordered
  exact after.mono (by omega)

theorem Written.placed {writing : Writing} {tokens rest : List Token}
    (written : Written writing tokens rest) {start : Nat} (laid : Laid IsEnd start tokens) :
    writing.Placed IsEnd start rest := by
  -- On what is written, each part from the offset at which the part before it ends.
  induction written generalizing start with
  | leaf leaf => exact leaf.placed laid
  | primes marks =>
      obtain ⟨-, after, facts⟩ := marks.placed laid
      obtain ⟨before, isStart, isStop⟩ := facts _ rfl
      exact ⟨before, Node.tidy_of_no_parts rfl rfl isStart isStop, after⟩
  | attach base_written marks scripts_written proper base_ih scripts_ih =>
      exact placed_attach (base_ih laid) marks scripts_ih
  | frac num_written kind denom_written num_ih denom_ih =>
      exact placed_two _ rfl rfl (.inl rfl) (num_ih laid) denom_ih
  | root kind written ih => exact placed_marked _ rfl rfl (.inl rfl) laid ih
  | delimited kinds written ih => exact placed_delimited laid ih
  | mathCall name_kind opening_kind written closing_kind ih => exact placed_mathCall laid ih
  | @embedded expr hash middle rest kind written ends ih =>
      obtain ⟨before, -, -, afterHash⟩ := laid
      obtain ⟨apart, tidy, after⟩ := ih afterHash
      have hash_ordered := hash.range.ordered
      exact ⟨by omega, tidy, after⟩
  | single written ih => exact ih laid
  | sequence written improper ih => exact placed_sequence laid ih
  | positional written ih => exact ih laid
  | labelled named kind written ih => exact placed_named laid ih
  | @parenthesized expr opening closing middle rest opening_kind closing_kind written ih =>
      exact placed_items (.parenthesized expr ⟨.cover opening.range closing.range, .detached⟩)
        [expr] rfl rfl rfl laid ih InRow.apart
  | @array items opening closing middle rest opening_kind closing_kind written ih =>
      exact placed_items (.array items ⟨.cover opening.range closing.range, .detached⟩)
        items rfl rfl rfl laid ih InRow.unspread_apart
  | @dict items opening closing middle rest opening_kind closing_kind written ih =>
      exact placed_items (.dict items ⟨.cover opening.range closing.range, .detached⟩)
        items rfl rfl rfl laid ih InRow.pairExprs_apart
  | @emptyDict opening colon closing rest opening_kind colon_kind closing_kind =>
      have nothing (afterOpening : Laid IsEnd opening.range.stop (colon :: closing :: rest)) :
          (Writing.many .item []).Placed IsEnd opening.range.stop (closing :: rest) :=
        ⟨.nil (Nat.le_refl _), afterOpening.drop⟩
      exact placed_items (.dict [] ⟨.cover opening.range closing.range, .detached⟩) []
        rfl rfl rfl laid nothing fun _ => .nil
  | contentBlock opening_kind closing_kind written ih => exact placed_contentBlock laid ih
  | call callee_written opening_kind closing_kind attached args_written blocks_written contiguous
      callee_ih args_ih blocks_ih => exact placed_call (callee_ih laid) args_ih blocks_ih
  | blockOperand written ih => exact ih laid
  | operand written ih => exact ih laid
  | blockCall callee_written block_written attached callee_ih block_ih =>
      exact placed_blockCall (callee_ih laid) block_ih
  | field written dot_kind name_kind ih => exact placed_field (ih laid)
  | binary lhs_written writes rhs_written lhs_ih rhs_ih =>
      exact placed_two _ rfl rfl (.inl rfl) (lhs_ih laid) rhs_ih
  | unary writes written ih => exact placed_marked _ rfl rfl (.inl rfl) laid ih
  | item written ih => exact ih laid
  | spread kind written ih => exact placed_marked _ rfl rfl (.inr rfl) laid ih
  | named name_kind colon_kind written ih => exact placed_named laid ih
  | keyed key_written kind value_written key_ih value_ih =>
      exact placed_two _ rfl rfl (.inr rfl) (key_ih laid) value_ih
  | none => exact ⟨.nil (Nat.le_refl _), laid⟩
  | more before written before_ih written_ih => exact placed_more (before_ih laid) written_ih
  | comma before kind ih =>
      obtain ⟨row, after⟩ := ih laid
      exact ⟨row, after.drop⟩
  | noRows => exact ⟨start, .empty start, laid⟩
  | argument before written before_ih written_ih =>
      obtain ⟨stop, placed, afterFound⟩ := before_ih laid
      obtain ⟨node_after, node_tidy, after⟩ := written_ih afterFound
      exact ⟨_, placed.add node_tidy node_after, after⟩
  | rowComma before kind ih =>
      obtain ⟨stop, placed, after⟩ := ih laid
      exact ⟨stop, placed, after.drop⟩
  | endRow before kind ih =>
      obtain ⟨stop, placed, after⟩ := ih laid
      exact ⟨stop, placed.endRow, after.drop⟩
  | noScripts => exact ⟨.empty start, laid⟩
  | script before kind free written before_ih written_ih =>
      exact placed_script (before_ih laid) written_ih

theorem Written.start_le_name {target : Node} {dot name : Token} {tokens rest : List Token}
    (written : Written (.one .operand target) tokens (dot :: name :: rest))
    (ordered : tokens.Pairwise fun earlier later => earlier.range.stop ≤ later.range.start) :
    target.range.start ≤ name.range.stop := by
  have laid : Laid (fun _ => True) 0 tokens :=
    .of_ordered ordered fun _ _ => ⟨trivial, trivial⟩
  obtain ⟨-, -, dot_after, -, -, name_after, -⟩ := written.placed laid
  have target_ordered := target.range.ordered
  have dot_ordered := dot.range.ordered
  have name_ordered := name.range.ordered
  omega

end EquationMap
