import EquationMap.Proofs.Parsing.Written
import EquationMap.Proofs.Tree.Nesting

namespace EquationMap

open Grammar

namespace ByteRange

@[simp]
theorem start_cover (first last : ByteRange) : (cover first last).start = first.start :=
  rfl

@[simp]
theorem stop_cover (first last : ByteRange) :
    (cover first last).stop = max first.start last.stop :=
  rfl

theorem stop_cover_of_le {first last : ByteRange} (le : first.start ≤ last.stop) :
    (cover first last).stop = last.stop :=
  Nat.max_eq_right le

theorem stop_cover_of_before {first last : ByteRange} (before : first.stop ≤ last.start) :
    (cover first last).stop = last.stop := by
  have first_ordered := first.ordered
  have last_ordered := last.ordered
  exact stop_cover_of_le (by omega)

end ByteRange

variable {IsEnd : Nat → Prop}

/-- Whether tokens lie one after the other from an offset on, with ends of the given kind. -/
def Laid (IsEnd : Nat → Prop) : Nat → List Token → Prop
  | _, [] => True
  | offset, token :: rest =>
      offset ≤ token.range.start ∧ IsEnd token.range.start ∧ IsEnd token.range.stop ∧
        Laid IsEnd token.range.stop rest

theorem Laid.mono {offset earlier : Nat} {tokens : List Token}
    (laid : Laid IsEnd offset tokens) (before : earlier ≤ offset) :
    Laid IsEnd earlier tokens := by
  cases tokens with
  | nil => trivial
  | cons token rest => exact ⟨Nat.le_trans before laid.1, laid.2⟩

theorem Laid.of_ordered {tokens : List Token}
    (ordered : tokens.Pairwise fun earlier later => earlier.range.stop ≤ later.range.start)
    (isEnd : ∀ token ∈ tokens, IsEnd token.range.start ∧ IsEnd token.range.stop) :
    Laid IsEnd 0 tokens := by
  induction tokens with
  | nil => trivial
  | cons token rest ih =>
      obtain ⟨isStart, isStop⟩ := isEnd token List.mem_cons_self
      refine ⟨Nat.zero_le _, isStart, isStop, ?_⟩
      have later := ih ordered.of_cons fun other member =>
        isEnd other (List.mem_cons_of_mem _ member)
      cases rest with
      | nil => trivial
      | cons next others =>
          exact ⟨List.rel_of_pairwise_cons ordered List.mem_cons_self, later.2⟩

/-- Tidy nodes that lie one after the other between two offsets. -/
structure InRow (IsEnd : Nat → Prop) (start : Nat) (nodes : List Node) (stop : Nat) : Prop where
  le : start ≤ stop
  inside : ∀ node ∈ nodes, start ≤ node.range.start ∧ node.range.stop ≤ stop
  ordered : nodes.Pairwise fun a b => a.range.stop ≤ b.range.start
  tidy : ∀ node ∈ nodes, node.Tidy IsEnd

namespace InRow

variable {start stop : Nat} {nodes : List Node}

theorem nil (le : start ≤ stop) : InRow IsEnd start [] stop where
  le := le
  inside := by simp
  ordered := .nil
  tidy := by simp

theorem single {node : Node} (tidy : node.Tidy IsEnd) (start_le : start ≤ node.range.start)
    (le_stop : node.range.stop ≤ stop) : InRow IsEnd start [node] stop where
  le := by
    have := node.range.ordered
    omega
  inside := by simp [start_le, le_stop]
  ordered := List.pairwise_singleton _ _
  tidy := by simpa using tidy

theorem append {middle later : Nat} {others : List Node} (left : InRow IsEnd start nodes middle)
    (right : InRow IsEnd later others stop) (le : middle ≤ later) :
    InRow IsEnd start (nodes ++ others) stop where
  le := by
    have := left.le
    have := right.le
    omega
  inside := by
    intro node member
    have := left.le
    have := right.le
    rcases List.mem_append.mp member with first | second
    · have := left.inside node first
      omega
    · have := right.inside node second
      omega
  ordered := by
    refine List.pairwise_append.mpr ⟨left.ordered, right.ordered, ?_⟩
    intro a first b second
    have := left.inside a first
    have := right.inside b second
    omega
  tidy := by
    intro node member
    rcases List.mem_append.mp member with first | second
    · exact left.tidy node first
    · exact right.tidy node second

theorem longer {later : Nat} (row : InRow IsEnd start nodes stop) (le : stop ≤ later) :
    InRow IsEnd start nodes later where
  le := Nat.le_trans row.le le
  inside := fun node member =>
    ⟨(row.inside node member).1, Nat.le_trans (row.inside node member).2 le⟩
  ordered := row.ordered
  tidy := row.tidy

theorem snoc {middle : Nat} {node : Node} (row : InRow IsEnd start nodes middle)
    (tidy : node.Tidy IsEnd) (le : middle ≤ node.range.start) :
    InRow IsEnd start (nodes ++ [node]) node.range.stop :=
  row.append (single tidy le (Nat.le_refl _)) (Nat.le_refl _)

theorem sublist {others : List Node} (row : InRow IsEnd start nodes stop)
    (sublist : others.Sublist nodes) : InRow IsEnd start others stop where
  le := row.le
  inside := fun node member => row.inside node (sublist.subset member)
  ordered := row.ordered.sublist sublist
  tidy := fun node member => row.tidy node (sublist.subset member)

theorem apart (row : InRow IsEnd start nodes stop) :
    nodes.Pairwise fun a b => a.range.Apart b.range :=
  row.ordered.imp fun before => .inl before

theorem contained (row : InRow IsEnd start nodes stop) {range : ByteRange}
    (start_le : range.start ≤ start) (le_stop : stop ≤ range.stop) :
    ∀ inner ∈ nodes.map TreePart.node, range.contains inner.range = true := by
  intro inner member
  obtain ⟨node, direct, rfl⟩ := List.mem_map.mp member
  have := row.inside node direct
  rw [ByteRange.contains_iff]
  change range.start ≤ node.range.start ∧ node.range.stop ≤ range.stop
  omega

theorem below_tidy (row : InRow IsEnd start nodes stop) :
    ∀ inner ∈ nodes.map TreePart.node, ∀ part ∈ inner.subtree, part.Tidy IsEnd := by
  intro inner member
  obtain ⟨node, direct, rfl⟩ := List.mem_map.mp member
  exact row.tidy node direct

theorem node_tidy (row : InRow IsEnd start nodes stop) {node : Node}
    (parts : node.parts = nodes.map .node) (start_le : node.range.start ≤ start)
    (le_stop : stop ≤ node.range.stop) (isStart : IsEnd node.range.start)
    (isStop : IsEnd node.range.stop)
    (apart : node.subexpressions.Pairwise fun a b => a.range.Apart b.range)
    (pair : ∀ {key expr place}, node = .keyed key expr place → key.range.Apart expr.range) :
    node.Tidy IsEnd := by
  refine Node.tidy_of_parts ⟨isStart, isStop, ?_, apart, ?_⟩ ?_
  · change ∀ inner ∈ node.parts, _
    rw [parts]
    exact row.contained start_le le_stop
  · intro key expr place same
    exact pair (TreePart.node.inj same)
  · rw [parts]
    exact row.below_tidy

theorem math_tidy (row : InRow IsEnd start nodes stop) {place : Place}
    (start_le : place.range.start ≤ start) (le_stop : stop ≤ place.range.stop)
    (isStart : IsEnd place.range.start) (isStop : IsEnd place.range.stop) :
    (Node.math nodes place).Tidy IsEnd :=
  row.node_tidy rfl start_le le_stop isStart isStop row.apart (by simp)

end InRow

theorem Node.Tidy.isStart {node : Node} (tidy : node.Tidy IsEnd) : IsEnd node.range.start :=
  tidy.here.start

theorem Node.Tidy.isStop {node : Node} (tidy : node.Tidy IsEnd) : IsEnd node.range.stop :=
  tidy.here.stop

@[simp]
theorem lastStop_concat (start : Nat) (nodes : List Node) (node : Node) :
    lastStop start (nodes ++ [node]) = node.range.stop := by
  simp [lastStop]

theorem Node.tidy_of_no_parts {node : Node} (noParts : node.parts = [])
    (noSubexpressions : node.subexpressions = []) (isStart : IsEnd node.range.start)
    (isStop : IsEnd node.range.stop) : node.Tidy IsEnd := by
  refine (InRow.nil node.range.ordered).node_tidy noParts (Nat.le_refl _) (Nat.le_refl _)
    isStart isStop ?_ ?_
  · rw [noSubexpressions]
    exact .nil
  · intro key expr place same
    cases same
    cases noParts

theorem isEnd_lastStop {start stop : Nat} {nodes : List Node}
    (row : InRow IsEnd start nodes stop) (isStart : IsEnd start) :
    IsEnd (lastStop start nodes) := by
  rcases List.eq_nil_or_concat nodes with rfl | ⟨before, node, rfl⟩
  · exact isStart
  · rw [List.concat_eq_append, lastStop_concat]
    exact (row.tidy node (by simp)).isStop

/-- The arguments of a call between two offsets. Named ones may lie between the others. -/
structure Grammar.ArgumentRows.Placed (IsEnd : Nat → Prop) (start : Nat)
    (found : ArgumentRows) (stop : Nat) : Prop where
  positional : InRow IsEnd start (found.rows.flatten ++ found.row) stop
  named : ∀ node ∈ found.named, start ≤ node.range.start ∧ node.range.stop ≤ stop ∧
    node.Tidy IsEnd ∧ node.isPositional = false

/-- Where the scripts of an atom end that lie from an offset on. -/
def Grammar.Scripts.stopFrom (start : Nat) (found : Scripts) : Nat :=
  (found.last.map ByteRange.stop).getD start

structure Grammar.Scripts.Placed (IsEnd : Nat → Prop) (start : Nat) (found : Scripts) :
    Prop where
  le : start ≤ found.stopFrom start
  inside : ∀ {side node}, found.on side = some node →
    start ≤ node.range.start ∧ node.range.stop ≤ found.stopFrom start ∧ node.Tidy IsEnd
  apart : ∀ {bottom top}, found.bottom = some bottom → found.top = some top →
    bottom.range.Apart top.range
  isStop : ∀ {range}, found.last = some range → IsEnd range.stop

/-- What is written in tokens from an offset on is tidy, it lies one after the other, and the
tokens that follow lie after it. -/
def Writing.Placed (IsEnd : Nat → Prop) (start : Nat) (rest : List Token) : Writing → Prop
  | .one _ node =>
      start ≤ node.range.start ∧ node.Tidy IsEnd ∧ Laid IsEnd node.range.stop rest
  | .many _ nodes =>
      InRow IsEnd start nodes (lastStop start nodes) ∧ Laid IsEnd (lastStop start nodes) rest
  | .rows found => ∃ stop, found.Placed IsEnd start stop ∧ Laid IsEnd stop rest
  | .scripts found => found.Placed IsEnd start ∧ Laid IsEnd (found.stopFrom start) rest

section

variable {start : Nat} {rest : List Token}

theorem Leaf.placed {role : Role} {token : Token} {node : Node} (leaf : Leaf role token node)
    (laid : Laid IsEnd start (token :: rest)) :
    (Writing.one role node).Placed IsEnd start rest := by
  obtain ⟨before, isStart, isStop, after⟩ := laid
  cases leaf <;> exact ⟨before, Node.tidy_of_no_parts rfl rfl isStart isStop, after⟩

def primesStop (start : Nat) (primes : Option Primes) : Nat :=
  (primes.map fun primes => primes.place.range.stop).getD start

theorem Marks.placed {primes : Option Primes} {tokens rest : List Token}
    (marks : Marks primes tokens rest) (laid : Laid IsEnd start tokens) :
    start ≤ primesStop start primes ∧ Laid IsEnd (primesStop start primes) rest ∧
      ∀ run, primes = some run → start ≤ run.place.range.start ∧
        IsEnd run.place.range.start ∧ IsEnd run.place.range.stop := by
  induction marks with
  | absent => exact ⟨Nat.le_refl _, laid, by simp⟩
  | @first mark rest kind =>
      obtain ⟨before, isStart, isStop, after⟩ := laid
      have := mark.range.ordered
      refine ⟨Nat.le_trans before this, after, ?_⟩
      rintro run ⟨⟩
      exact ⟨before, isStart, isStop⟩
  | @more run tokens rest mark earlier kind ih =>
      obtain ⟨le, laidMark, facts⟩ := ih laid
      obtain ⟨before, -, isStop, after⟩ := laidMark
      obtain ⟨le_start, isStart, -⟩ := facts run rfl
      have := mark.range.ordered
      have := run.place.range.ordered
      simp only [primesStop, Option.map_some, Option.getD_some, ByteRange.stop_cover] at *
      have same : max run.place.range.start mark.range.stop = mark.range.stop := by omega
      rw [same]
      refine ⟨by omega, after, ?_⟩
      rintro run ⟨⟩
      simp only [ByteRange.start_cover, ByteRange.stop_cover, same]
      exact ⟨le_start, isStart, isStop⟩

end

end EquationMap
