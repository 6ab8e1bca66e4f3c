import EquationMap.Syntax.Node

namespace EquationMap

/-! Where the nodes of a tree end, and how deeply they nest. A step into a node that was read
before its own construct, as the numerator of a fraction is, is told apart from a step into one
that was read inside the construct. -/

structure ByteRange.EndsAt (IsEnd : Nat → Prop) (range : ByteRange) : Prop where
  start : IsEnd range.start
  stop : IsEnd range.stop

namespace ByteRange.EndsAt

variable {IsEnd : Nat → Prop}

theorem between {start stop : Nat} (first : IsEnd start) (last : IsEnd stop) :
    (ByteRange.between start stop).EndsAt IsEnd := by
  refine ⟨first, ?_⟩
  change IsEnd (max start stop)
  rcases Nat.le_total start stop with ordered | reversed
  · rwa [Nat.max_eq_right ordered]
  · rwa [Nat.max_eq_left reversed]

theorem cover {first last : ByteRange} (opening : first.EndsAt IsEnd)
    (closing : last.EndsAt IsEnd) : (ByteRange.cover first last).EndsAt IsEnd :=
  between opening.start closing.stop

end ByteRange.EndsAt

/-- What a step of nesting goes into. -/
inductive Nesting where
  | operand
  | row
  | inside
  deriving DecidableEq

def Nesting.levels : Nesting → Nat
  | inside => 1
  | operand | row => 0

theorem Nesting.count_inside_cons (step : Nesting) (steps : List Nesting) :
    (step :: steps).count .inside = steps.count .inside + step.levels := by
  cases step <;> simp [Nesting.levels]

namespace Node

/-- The nodes in a node that do not nest in it. -/
def alongside : Node → List Node
  | math exprs _ => exprs
  | attach base _ _ _ _ => [base]
  | named _ expr _ | spread expr _ => [expr]
  | keyed key expr _ => [key, expr]
  | _ => []

/-- What the step from a call into one of its arguments goes into. -/
def argumentNesting : Node → Node → Nesting
  | mathIdent _ _, array _ _ => .row
  | _, _ => .inside

def nested : Node → List (Nesting × Node)
  | delimited _ body _ _ _ => body.map fun expr => (.inside, expr)
  | attach _ bottom top _ _ => (bottom.toList ++ top.toList).map fun script => (.inside, script)
  | frac num denom _ => [(.operand, num), (.inside, denom)]
  | binary lhs _ rhs _ => [(.operand, lhs), (.inside, rhs)]
  | call callee args _ _ =>
      (.operand, callee) :: args.map fun arg => (callee.argumentNesting arg, arg)
  | field target _ _ => [(.operand, target)]
  | root _ expr _ | unary _ expr _ | parenthesized expr _ => [(.inside, expr)]
  | array items _ | dict items _ | contentBlock items _ _ =>
      items.map fun item => (.inside, item)
  | _ => []

/-- A path from a node to a node in it, with the steps of nesting on the way. -/
inductive Path : Node → List Nesting → Node → Prop
  | here {node : Node} : Path node [] node
  | along {node part inner : Node} {steps : List Nesting} (direct : part ∈ node.alongside)
      (path : Path part steps inner) : Path node steps inner
  | into {node part inner : Node} {step : Nesting} {steps : List Nesting}
      (direct : (step, part) ∈ node.nested) (path : Path part steps inner) :
      Path node (step :: steps) inner

/-- Whether all nodes in a node end at offsets of some kind, and no path to one of them takes
more levels, or more steps, than some number. -/
def Fits (IsEnd : Nat → Prop) (levels steps : Nat) (node : Node) : Prop :=
  ∀ (taken : List Nesting) (inner : Node), node.Path taken inner →
    inner.range.EndsAt IsEnd ∧ taken.count .inside ≤ levels ∧ taken.length ≤ steps

namespace Fits

variable {IsEnd : Nat → Prop} {node : Node} {levels steps : Nat}

theorem ends (fits : node.Fits IsEnd levels steps) : node.range.EndsAt IsEnd :=
  (fits [] node .here).1

theorem part (fits : node.Fits IsEnd levels steps) {part : Node}
    (direct : part ∈ node.alongside) : part.Fits IsEnd levels steps :=
  fun taken inner path => fits taken inner (.along direct path)

theorem mono {fewer less : Nat} (fits : node.Fits IsEnd fewer less) (inLevels : fewer ≤ levels)
    (inSteps : less ≤ steps) : node.Fits IsEnd levels steps := by
  intro taken inner path
  obtain ⟨ends, few, short⟩ := fits taken inner path
  exact ⟨ends, Nat.le_trans few inLevels, Nat.le_trans short inSteps⟩

/-- The depth of a node is that of the nodes alongside it, or one more than that of a node that
nests in it. -/
theorem of_parts (ends : node.range.EndsAt IsEnd)
    (along : ∀ part ∈ node.alongside, part.Fits IsEnd levels steps)
    (into : ∀ step part, (step, part) ∈ node.nested →
      ∃ fewer less, part.Fits IsEnd fewer less ∧ fewer + step.levels ≤ levels ∧ less < steps) :
    node.Fits IsEnd levels steps := by
  intro taken inner path
  cases path with
  | here => exact ⟨ends, Nat.zero_le _, Nat.zero_le _⟩
  | along direct path => exact along _ direct _ _ path
  | into direct path =>
      obtain ⟨fewer, less, fits, inLevels, inSteps⟩ := into _ _ direct
      obtain ⟨inner_ends, few, short⟩ := fits _ _ path
      rw [Nesting.count_inside_cons, List.length_cons]
      exact ⟨inner_ends, by omega, by omega⟩

theorem leaf (ends : node.range.EndsAt IsEnd) (along : node.alongside = [])
    (nested : node.nested = []) : node.Fits IsEnd levels steps := by
  refine .of_parts ends ?_ ?_
  · simp [along]
  · simp [nested]

theorem beside (ends : node.range.EndsAt IsEnd) (nested : node.nested = [])
    (fit : ∀ part ∈ node.alongside, part.Fits IsEnd levels steps) :
    node.Fits IsEnd levels steps :=
  .of_parts ends fit (by simp [nested])

theorem around {parts : List Node} (ends : node.range.EndsAt IsEnd)
    (along : node.alongside = []) (nested : node.nested = parts.map fun part => (.inside, part))
    (fit : ∀ part ∈ parts, part.Fits IsEnd levels steps) :
    node.Fits IsEnd (levels + 1) (steps + 1) := by
  refine .of_parts ends (by simp [along]) ?_
  intro step part direct
  rw [nested] at direct
  obtain ⟨found, member, same⟩ := List.mem_map.mp direct
  cases same
  exact ⟨levels, steps, fit _ member, Nat.le_refl _, Nat.lt_succ_self _⟩

theorem aroundOne {part : Node} (ends : node.range.EndsAt IsEnd) (along : node.alongside = [])
    (nested : node.nested = [(.inside, part)]) (fit : part.Fits IsEnd levels steps) :
    node.Fits IsEnd (levels + 1) (steps + 1) := by
  have parts : node.nested = [part].map fun part => (.inside, part) := nested
  refine .around ends along parts fun other member => ?_
  rw [List.mem_singleton.mp member]
  exact fit

theorem after {operand part : Node} (ends : node.range.EndsAt IsEnd)
    (along : node.alongside = [])
    (nested : node.nested = [(.operand, operand), (.inside, part)])
    (first : operand.Fits IsEnd levels steps) {fewer less : Nat}
    (second : part.Fits IsEnd fewer less) (deeper : fewer < levels) (shorter : less ≤ steps) :
    node.Fits IsEnd levels (steps + 1) := by
  refine .of_parts ends (by simp [along]) ?_
  intro step found direct
  simp only [nested, List.mem_cons, List.not_mem_nil, or_false, Prod.mk.injEq] at direct
  rcases direct with ⟨rfl, rfl⟩ | ⟨rfl, rfl⟩
  · exact ⟨levels, steps, first, Nat.le_refl _, Nat.lt_succ_self _⟩
  · exact ⟨fewer, less, second, deeper, Nat.lt_succ_of_le shorter⟩

end Fits

end Node

end EquationMap
