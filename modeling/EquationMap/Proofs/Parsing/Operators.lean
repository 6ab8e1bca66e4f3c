import EquationMap.Proofs.Lexing.Coverage
import EquationMap.Proofs.Parsing.Needs

namespace EquationMap

open Grammar Reading

/-- A name or a literal of code. -/
structure CodeLeaf where
  token : Token
  node : Node
  leaf : Leaf .operand token node

structure PrefixMark where
  op : UnaryOp
  token : Token
  kind : UnaryOp.ofKind? token.kind = some op

structure InfixMark where
  op : BinaryOp
  token : Token
  kind : BinaryOp.ofKind? token.kind = some op

/-- A name or a literal after so many operators. -/
structure CodeOperand where
  prefixes : List PrefixMark
  leaf : CodeLeaf

/-- Operands with operators between them. -/
@[ext]
structure OperatorSequence where
  first : CodeOperand
  others : List (InfixMark × CodeOperand)

def CodeOperand.tokens (operand : CodeOperand) : List Token :=
  operand.prefixes.map PrefixMark.token ++ [operand.leaf.token]

def operandTokens (others : List (InfixMark × CodeOperand)) : List Token :=
  others.flatMap fun (mark, operand) => mark.token :: operand.tokens

def OperatorSequence.tokens (sequence : OperatorSequence) : List Token :=
  sequence.first.tokens ++ operandTokens sequence.others

/-- Whether no operand has an operator before it. -/
structure OperatorSequence.IsBare (sequence : OperatorSequence) : Prop where
  first : sequence.first.prefixes = []
  others : ∀ operand ∈ sequence.others, operand.2.prefixes = []

/-- How operands and operators are grouped. -/
inductive OperatorTree where
  | operand (leaf : CodeLeaf)
  | unary (mark : PrefixMark) (expr : OperatorTree)
  | binary (lhs : OperatorTree) (mark : InfixMark) (rhs : OperatorTree)

namespace OperatorTree

/-- What a tree is written as, from left to right. -/
def written : OperatorTree → OperatorSequence
  | operand leaf => ⟨⟨[], leaf⟩, []⟩
  | unary mark expr =>
      ⟨⟨mark :: expr.written.first.prefixes, expr.written.first.leaf⟩, expr.written.others⟩
  | binary lhs mark rhs =>
      ⟨lhs.written.first,
        lhs.written.others ++ (mark, rhs.written.first) :: rhs.written.others⟩

def node : OperatorTree → Node
  | operand leaf => leaf.node
  | unary mark expr =>
      .unary mark.op expr.node ⟨.cover mark.token.range expr.node.range, .detached⟩
  | binary lhs mark rhs =>
      .binary lhs.node mark.op rhs.node ⟨.cover lhs.node.range rhs.node.range, .detached⟩

/-- Whether a tree has no operator between operands on top, or one that binds its left operand
at least so tightly. -/
def AtLeast (power : Nat) : OperatorTree → Prop
  | operand _ | unary _ _ => True
  | binary _ mark _ => power ≤ mark.op.leftPower

def IsBinary : OperatorTree → Prop
  | operand _ | unary _ _ => False
  | binary _ _ _ => True

/-- Whether operators bind what they stand beside at least as tightly as they ask for. -/
def Grouped : OperatorTree → Prop
  | operand _ => True
  | unary mark expr => expr.Grouped ∧
      match mark.op with
      | .negate | .plus => ¬expr.IsBinary
      | .not => expr.AtLeast 5
  | binary lhs mark rhs => lhs.Grouped ∧ rhs.Grouped ∧
      lhs.AtLeast mark.op.leftPower ∧ rhs.AtLeast mark.op.rightPower

/-- How many operators there are between a tree and its first operand. -/
def spine : OperatorTree → Nat
  | operand _ | unary _ _ => 0
  | binary lhs _ _ => lhs.spine + 1

/-- How many levels of nesting a tree takes up. -/
def levels : OperatorTree → Nat
  | operand _ => 1
  | unary _ expr => expr.levels + 1
  | binary lhs _ rhs => max lhs.levels (lhs.spine + 2 + rhs.levels)

theorem spine_lt_levels (tree : OperatorTree) : tree.spine < tree.levels := by
  cases tree with
  | operand leaf => exact Nat.zero_lt_one
  | unary mark expr => exact Nat.succ_pos _
  | binary lhs mark rhs =>
      simp only [spine, levels]
      omega

variable {lhs rhs tree : OperatorTree} {mark : InfixMark}

theorem bare_left (bare : (binary lhs mark rhs).written.IsBare) : lhs.written.IsBare where
  first := bare.first
  others operand member := bare.others operand (List.mem_append_left _ member)

theorem bare_right (bare : (binary lhs mark rhs).written.IsBare) : rhs.written.IsBare where
  first := bare.others (mark, rhs.written.first) (List.mem_append_right _ List.mem_cons_self)
  others operand member :=
    bare.others operand (List.mem_append_right _ (List.mem_cons_of_mem _ member))

theorem le_leftPower {power : Nat} (grouped : tree.Grouped) (atLeast : tree.AtLeast power)
    (bare : tree.written.IsBare) :
    ∀ operand ∈ tree.written.others, power ≤ operand.1.op.leftPower := by
  induction tree generalizing power with
  | operand leaf =>
      intro operand absent
      cases absent
  | unary mark expr ih => exact absurd bare.first (List.cons_ne_nil _ _)
  | binary lhs mark rhs ih_left ih_right =>
      obtain ⟨left, right, leftBound, rightBound⟩ := grouped
      intro operand member
      rcases List.mem_append.mp member with inLeft | inRight
      · exact Nat.le_trans atLeast (ih_left left leftBound (bare_left bare) operand inLeft)
      · rcases List.mem_cons.mp inRight with rfl | inRight
        · exact atLeast
        · have above := ih_right right rightBound (bare_right bare) operand inRight
          exact Nat.le_trans atLeast (Nat.le_of_succ_le above)

/-- The operator on top of one tree is not on the right of the one on top of another. -/
theorem not_split {lhs_other rhs_other : OperatorTree} {mark_other : InfixMark}
    {more : List (InfixMark × CodeOperand)} (grouped : (binary lhs mark rhs).Grouped)
    (bare : (binary lhs mark rhs).written.IsBare)
    (grouped_other : (binary lhs_other mark_other rhs_other).Grouped)
    (bare_other : (binary lhs_other mark_other rhs_other).written.IsBare)
    (inRight : rhs.written.others = more ++ (mark_other, rhs_other.written.first) ::
      rhs_other.written.others)
    (inLeft : (mark, rhs.written.first) ∈ lhs_other.written.others) : False := by
  obtain ⟨-, right, -, rightBound⟩ := grouped
  obtain ⟨left_other, -, leftBound_other, -⟩ := grouped_other
  have above : mark.op.rightPower ≤ mark_other.op.leftPower := by
    refine le_leftPower right rightBound (bare_right bare) (mark_other, rhs_other.written.first) ?_
    rw [inRight]
    exact List.mem_append_right _ List.mem_cons_self
  have below : mark_other.op.leftPower ≤ mark.op.leftPower :=
    le_leftPower left_other leftBound_other (bare_left bare_other) _ inLeft
  exact Nat.not_succ_le_self _ (Nat.le_trans above below)

theorem eq_of_written {other : OperatorTree} (grouped : tree.Grouped)
    (grouped_other : other.Grouped) (same : other.written = tree.written)
    (bare : tree.written.IsBare) : other = tree := by
  have bare_other : other.written.IsBare := same ▸ bare
  induction tree generalizing other with
  | operand leaf =>
      cases other with
      | operand leaf_other =>
          cases same
          rfl
      | unary mark expr => exact absurd bare_other.first (List.cons_ne_nil _ _)
      | binary lhs mark rhs =>
          have none := congrArg OperatorSequence.others same
          exact absurd none (List.append_ne_nil_of_right_ne_nil _ (List.cons_ne_nil _ _))
  | unary mark expr ih => exact absurd bare.first (List.cons_ne_nil _ _)
  | binary lhs mark rhs ih_left ih_right =>
      cases other with
      | operand leaf =>
          have none := congrArg OperatorSequence.others same
          exact absurd none.symm (List.append_ne_nil_of_right_ne_nil _ (List.cons_ne_nil _ _))
      | unary mark expr => exact absurd bare_other.first (List.cons_ne_nil _ _)
      | binary lhs_other mark_other rhs_other =>
          have same_first : lhs_other.written.first = lhs.written.first :=
            (congrArg OperatorSequence.first same :)
          have same_others : lhs_other.written.others ++ (mark_other, rhs_other.written.first) ::
              rhs_other.written.others =
                lhs.written.others ++ (mark, rhs.written.first) :: rhs.written.others :=
            (congrArg OperatorSequence.others same :)
          have same_top (left : lhs_other.written.others = lhs.written.others)
              (right : (mark_other, rhs_other.written.first) :: rhs_other.written.others =
                (mark, rhs.written.first) :: rhs.written.others) :
              binary lhs_other mark_other rhs_other = binary lhs mark rhs := by
            obtain ⟨same_pair, same_right⟩ := List.cons.inj right
            obtain ⟨rfl, same_right_first⟩ := Prod.mk.inj same_pair
            rw [ih_left grouped.1 grouped_other.1
                (OperatorSequence.ext same_first left) (bare_left bare) (bare_left bare_other),
              ih_right grouped.2.1 grouped_other.2.1
                (OperatorSequence.ext same_right_first same_right) (bare_right bare)
                (bare_right bare_other)]
          -- The topmost operators are at one place, or that of one tree is inside an operand of the
          -- other, which their powers rule out.
          rcases List.append_eq_append_iff.mp same_others with
            ⟨more, left, right⟩ | ⟨more, left, right⟩
          · rcases List.cons_eq_append_iff.mp right with ⟨rfl, here⟩ | ⟨more, rfl, inRight⟩
            · exact same_top (by rw [left, List.append_nil]) here.symm
            · have inLeft : (mark_other, rhs_other.written.first) ∈ lhs.written.others :=
                left ▸ List.mem_append_right _ List.mem_cons_self
              exact (not_split grouped_other bare_other grouped bare inRight inLeft).elim
          · rcases List.cons_eq_append_iff.mp right with ⟨rfl, here⟩ | ⟨more, rfl, inRight⟩
            · exact same_top (by rw [left, List.append_nil]) here
            · have inLeft : (mark, rhs.written.first) ∈ lhs_other.written.others :=
                left ▸ List.mem_append_right _ List.mem_cons_self
              exact (not_split grouped bare grouped_other bare_other inRight inLeft).elim

theorem atLeast_of_not_isBinary {power : Nat} (single : ¬tree.IsBinary) :
    tree.AtLeast power := by
  cases tree with
  | operand leaf => trivial
  | unary mark expr => trivial
  | binary lhs mark rhs => exact (single trivial).elim

theorem not_isBinary_of_atLeast (atLeast : tree.AtLeast 11) : ¬tree.IsBinary := by
  cases tree with
  | operand leaf => exact id
  | unary mark expr => exact id
  | binary lhs mark rhs =>
      have atMost : mark.op.leftPower ≤ 9 := by
        cases mark.op <;> decide
      exact absurd (Nat.le_trans atLeast atMost) (by decide)

theorem spine_of_not_isBinary (single : ¬tree.IsBinary) : tree.spine = 0 := by
  cases tree with
  | operand leaf => rfl
  | unary mark expr => rfl
  | binary lhs mark rhs => exact (single trivial).elim

end OperatorTree

def Cursor.before (tokens : List Token) (next : Token) (rest : List Token)
    (errors : List SyntaxError) : Cursor :=
  match tokens with
  | [] => ⟨next, rest, errors⟩
  | token :: others => ⟨token, others ++ next :: rest, errors⟩

theorem Cursor.next_before (token : Token) (tokens : List Token) (next : Token)
    (rest : List Token) (errors : List SyntaxError) :
    (before (token :: tokens) next rest errors).next = before tokens next rest errors := by
  cases tokens <;> rfl

theorem Cursor.errors_before (tokens : List Token) (next : Token) (rest : List Token)
    (errors : List SyntaxError) : (before tokens next rest errors).errors = errors := by
  cases tokens <;> rfl

namespace Grammar

/-- Whether a token does not go on with an operand of code. -/
def EndsOperand (token : Token) : Prop :=
  token.kind ≠ .lparen ∧ token.kind ≠ .lbracket ∧ token.kind ≠ .dot

/-- Whether a token does not go on with an expression of code. -/
structure EndsCode (token : Token) : Prop where
  operand : EndsOperand token
  noOperator : BinaryOp.ofKind? token.kind = none

theorem endsOperand_infix (mark : InfixMark) : EndsOperand mark.token := by
  have kind := mark.kind
  refine ⟨?_, ?_, ?_⟩
  all_goals
    intro same
    rw [same] at kind
    cases kind

variable {next : Token} {rest : List Token} {errors : List SyntaxError}
  {others left middle : List (InfixMark × CodeOperand)} {tree lhs rhs : OperatorTree}
  {power needed more : Nat}

theorem endsOperand_before (ends : EndsCode next)
    (others : List (InfixMark × CodeOperand)) :
    EndsOperand (Cursor.before (operandTokens others) next rest errors).current := by
  cases others with
  | nil => exact ends.operand
  | cons operand others => exact endsOperand_infix operand.1

theorem stops_before (ends : EndsCode next)
    (stops : ∀ operand ∈ others.head?, operand.1.op.leftPower < power) {op : BinaryOp}
    (ofKind : BinaryOp.ofKind?
      (Cursor.before (operandTokens others) next rest errors).current.kind = some op) :
    op.leftPower < power := by
  cases others with
  | nil => exact absurd (ends.noOperator.symm.trans ofKind) nofun
  | cons operand others =>
      have same := operand.1.kind.symm.trans ofKind
      cases same
      exact stops operand rfl

theorem codeTail_stops {deeper : Phrase → Reading Node} {node : Node} {cursor : Cursor}
    (ends : EndsOperand cursor.current) : codeTail deeper node cursor = .ok node cursor := by
  obtain ⟨noCall, noBlock, noField⟩ := ends
  unfold codeTail
  simp only [current_bind, noCall, noBlock, noField, false_and, if_false, pure_apply]

theorem codeOperand_leaf {deeper : Phrase → Reading Node} (leaf : CodeLeaf) {cursor : Cursor}
    (atLeaf : cursor.current = leaf.token) (ends : EndsOperand cursor.next.current) :
    codeOperand deeper cursor = .ok leaf.node cursor.next := by
  obtain ⟨token, node, isLeaf⟩ := leaf
  dsimp only at atLeaf
  have noPrefix : UnaryOp.ofKind? token.kind = none := by
    cases isLeaf with
    | codeStr kind | ident kind | int kind read | float kind read | bool kind | noneLit kind
    | autoLit kind => rw [kind]; rfl
  have atom : codeAtom deeper cursor = .ok node cursor.next := by
    unfold codeAtom
    rw [current_bind, atLeaf]
    cases isLeaf with
    | codeStr kind | ident kind | bool kind | noneLit kind | autoLit kind =>
        simp only [kind]
        rfl
    | int kind read | float kind read =>
        simp only [kind, read]
        rfl
  unfold codeOperand
  rw [current_bind, atLeaf, noPrefix]
  dsimp only
  rw [bind_apply, atom]
  exact codeTail_stops ends

/-- Whether some tokens are read up to operators with their operands, wherever a token follows
them that ends an expression. -/
def ReadsBetween (reading : Nat → Reading Node) (needed : Nat) (tokens : List Token) (node : Node)
    (left : List (InfixMark × CodeOperand)) : Prop :=
  ∀ next rest errors, EndsCode next →
    Needs reading needed (.before tokens next rest errors) node
      (.before (operandTokens left) next rest errors)

theorem ReadsBetween.ending {reading : Nat → Reading Node} {function : Node → Node}
    {tokens : List Token} {node : Node} (reads : ReadsBetween reading needed tokens node left) :
    ReadsBetween (fun levels => reading levels >>= fun node => pure (function node)) needed tokens
      (function node) left :=
  fun _ _ _ ends => (reads _ _ _ ends).ending (fun _ => rfl) rfl

theorem ReadsBetween.bind {reading : Nat → Reading Node} {later : Nat → Node → Reading Node}
    {tokens : List Token} {node result : Node}
    (reads : ReadsBetween reading needed tokens node middle)
    (more_read : ReadsBetween (fun levels => later levels node) more (operandTokens middle)
      result left) :
    ReadsBetween (fun levels => reading levels >>= later levels) (max needed more) tokens result
      left :=
  fun _ _ _ ends => (reads _ _ _ ends).bind (more_read _ _ _ ends)

theorem ReadsBetween.later {reading other : Nat → Reading Node} {tokens : List Token}
    {token : Token} {node : Node} (reads : ReadsBetween other needed tokens node left)
    (same : ∀ levels cursor, cursor.current = token →
      reading levels cursor = other levels cursor.next) :
    ReadsBetween reading needed (token :: tokens) node left := by
  intro next rest errors ends
  refine (reads next rest errors ends).later (fun levels => ?_) ?_
  · rw [same levels _ rfl, Cursor.next_before]
  · rw [Cursor.errors_before, Cursor.errors_before]

/-! What is read of a sequence: an operand with the operators before it, an expression of
operators that bind at least so tightly, and the rest of such an expression after its left
operand. Each stops where the operator that is next binds less tightly. -/

structure ReadsOperand (sequence : OperatorSequence) (tree : OperatorTree)
    (left : List (InfixMark × CodeOperand)) (needed : Nat) : Prop where
  written : sequence = ⟨tree.written.first, tree.written.others ++ left⟩
  grouped : tree.Grouped
  single : ¬tree.IsBinary
  levels : tree.levels = needed + 1
  reads : ReadsBetween (fun levels => codeOperand (phrase levels)) needed sequence.tokens
    tree.node left

structure ReadsExpression (power : Nat) (sequence : OperatorSequence) (tree : OperatorTree)
    (left : List (InfixMark × CodeOperand)) : Prop where
  written : sequence = ⟨tree.written.first, tree.written.others ++ left⟩
  grouped : tree.Grouped
  atLeast : tree.AtLeast power
  stops : ∀ operand ∈ left.head?, operand.1.op.leftPower < power
  reads : ReadsBetween (fun levels => phrase levels (.expression power)) tree.levels
    sequence.tokens tree.node left

structure ReadsOthers (power : Nat) (lhs : OperatorTree)
    (others : List (InfixMark × CodeOperand)) (tree : OperatorTree)
    (left : List (InfixMark × CodeOperand)) (needed : Nat) : Prop where
  first : tree.written.first = lhs.written.first
  after : lhs.written.others ++ others = tree.written.others ++ left
  grouped : tree.Grouped
  atLeast : tree.AtLeast power
  stops : ∀ operand ∈ left.head?, operand.1.op.leftPower < power
  levels : tree.levels = max lhs.levels (lhs.spine + 1 + needed)
  reads : ReadsBetween (fun levels => expressionFrom (phrase levels) power lhs.node) needed
    (operandTokens others) tree.node left

theorem readsOperand_leaf (leaf : CodeLeaf) :
    ReadsOperand ⟨⟨[], leaf⟩, others⟩ (.operand leaf) others 0 where
  written := rfl
  grouped := trivial
  single := id
  levels := rfl
  reads := by
    intro next rest errors ends
    have passed : (Cursor.before (OperatorSequence.tokens ⟨⟨[], leaf⟩, others⟩) next rest
        errors).next = .before (operandTokens others) next rest errors :=
      Cursor.next_before _ _ _ _ _
    rw [← passed]
    refine .of_read (fun levels => codeOperand_leaf leaf rfl ?_) ?_
    · rw [passed]
      exact endsOperand_before ends others
    · rw [passed, Cursor.errors_before, Cursor.errors_before]

theorem readsOperand_unary {mark : PrefixMark} {operand : CodeOperand}
    (inner : ReadsExpression mark.op.power ⟨operand, others⟩ tree left) :
    ReadsOperand ⟨⟨mark :: operand.prefixes, operand.leaf⟩, others⟩ (.unary mark tree) left
      tree.levels where
  written := by
    obtain ⟨rfl, rfl⟩ := OperatorSequence.mk.inj inner.written
    rfl
  grouped := by
    refine ⟨inner.grouped, ?_⟩
    have atLeast := inner.atLeast
    cases op : mark.op with
    | negate | plus =>
        rw [op] at atLeast
        exact OperatorTree.not_isBinary_of_atLeast atLeast
    | not =>
        rw [op] at atLeast
        exact atLeast
  single := id
  levels := rfl
  reads := by
    have whole : ReadsBetween (fun levels => phrase levels (.expression mark.op.power) >>=
        fun expr => pure (.unary mark.op expr ⟨.cover mark.token.range expr.range, .detached⟩))
        tree.levels (OperatorSequence.tokens ⟨operand, others⟩)
        (OperatorTree.unary mark tree).node left :=
      inner.reads.ending
    refine whole.later fun levels cursor atMark => ?_
    unfold codeOperand
    rw [current_bind, atMark, mark.kind]
    dsimp only
    rw [advance_bind]

theorem readsExpression {sequence : OperatorSequence}
    (operand : ReadsOperand sequence lhs middle needed)
    (more_read : ReadsOthers power lhs middle tree left more) :
    ReadsExpression power sequence tree left where
  written := by
    rw [operand.written, more_read.first, more_read.after]
  grouped := more_read.grouped
  atLeast := more_read.atLeast
  stops := more_read.stops
  reads := by
    intro next rest errors ends
    have both : Needs (fun levels => body (phrase levels) (.expression power)) (max needed more)
        (.before sequence.tokens next rest errors) tree.node
        (.before (operandTokens left) next rest errors) :=
      operand.reads.bind more_read.reads next rest errors ends
    refine both.deeper.of_levels ?_
    rw [more_read.levels, operand.levels, OperatorTree.spine_of_not_isBinary operand.single]
    omega

theorem readsOthers_stop (grouped : lhs.Grouped) (atLeast : lhs.AtLeast power)
    (stops : ∀ operand ∈ others.head?, operand.1.op.leftPower < power) :
    ReadsOthers power lhs others lhs others 0 where
  first := rfl
  after := rfl
  grouped := grouped
  atLeast := atLeast
  stops := stops
  levels := by
    have := lhs.spine_lt_levels
    omega
  reads := by
    intro next rest errors ends
    refine .of_read (fun levels => ?_) rfl
    unfold expressionFrom
    rw [current_bind]
    cases ofKind : BinaryOp.ofKind?
        (Cursor.before (operandTokens others) next rest errors).current.kind with
    | none => rfl
    | some op =>
        dsimp only
        rw [if_pos (stops_before ends stops ofKind)]
        rfl

theorem readsOthers_step {mark : InfixMark} {operand : CodeOperand}
    (tight : power ≤ mark.op.leftPower)
    (right : ReadsExpression mark.op.rightPower ⟨operand, others⟩ rhs middle)
    (more_read : ReadsOthers power (.binary lhs mark rhs) middle tree left more) :
    ReadsOthers power lhs ((mark, operand) :: others) tree left (max rhs.levels more + 1) where
  first := more_read.first
  after := by
    obtain ⟨rfl, rfl⟩ := OperatorSequence.mk.inj right.written
    rw [← more_read.after, OperatorTree.written, List.append_assoc]
    rfl
  grouped := more_read.grouped
  atLeast := more_read.atLeast
  stops := more_read.stops
  levels := by
    rw [more_read.levels, OperatorTree.levels, OperatorTree.spine]
    omega
  reads := by
    have both : ReadsBetween
        (fun levels => phrase levels (.operand lhs.node mark.op mark.token.range power))
        (max rhs.levels more + 1) (OperatorSequence.tokens ⟨operand, others⟩) tree.node left :=
      fun _ _ _ ends => (right.reads.bind more_read.reads _ _ _ ends).deeper
    refine both.later fun levels cursor atMark => ?_
    unfold expressionFrom
    rw [current_bind, atMark, mark.kind]
    dsimp only
    rw [if_neg (Nat.not_lt_of_le tight), advance_bind, atMark]

theorem length_operandTokens_append (earlier later : List (InfixMark × CodeOperand)) :
    (operandTokens later).length ≤ (operandTokens (earlier ++ later)).length := by
  unfold operandTokens
  rw [List.flatMap_append, List.length_append]
  exact Nat.le_add_left _ _

theorem exists_readsOthers {size : Nat}
    (shorter : ∀ sequence : OperatorSequence, sequence.tokens.length < size → ∀ power,
      ∃ tree left, ReadsExpression power sequence tree left)
    (short : (operandTokens others).length ≤ size) (grouped : lhs.Grouped)
    (atLeast : lhs.AtLeast power)
    (beside : ∀ operand ∈ others.head?, lhs.AtLeast operand.1.op.leftPower) :
    ∃ tree left needed, ReadsOthers power lhs others tree left needed := by
  -- On the number of operands left: a right operand takes any number of them with it.
  induction count : others.length using Nat.strongRecOn generalizing others lhs with
  | _ length ih =>
      cases others with
      | nil =>
          refine ⟨lhs, [], 0, readsOthers_stop grouped atLeast ?_⟩
          rintro operand ⟨⟩
      | cons operand others =>
          obtain ⟨mark, operand⟩ := operand
          by_cases tight : power ≤ mark.op.leftPower
          · have within : (OperatorSequence.tokens ⟨operand, others⟩).length < size := short
            obtain ⟨rhs, middle, right⟩ := shorter _ within mark.op.rightPower
            obtain ⟨-, rfl⟩ := OperatorSequence.mk.inj right.written
            have later := length_operandTokens_append rhs.written.others middle
            have fewer : middle.length < length := by
              rw [← count, List.length_cons, List.length_append]
              omega
            have short_middle : (operandTokens middle).length ≤ size := by
              rw [OperatorSequence.tokens, List.length_append] at within
              dsimp only at within
              omega
            have grouped_both : (OperatorTree.binary lhs mark rhs).Grouped :=
              ⟨grouped, right.grouped, beside _ rfl, right.atLeast⟩
            obtain ⟨tree, left, needed, more_read⟩ := ih _ fewer short_middle grouped_both tight
              (fun operand first => Nat.le_of_lt_succ (right.stops operand first)) rfl
            exact ⟨tree, left, _, readsOthers_step tight right more_read⟩
          · refine ⟨lhs, _, 0, readsOthers_stop grouped atLeast ?_⟩
            rintro first ⟨⟩
            exact Nat.lt_of_not_le tight

theorem exists_readsExpression (sequence : OperatorSequence) (power : Nat) :
    ∃ tree left, ReadsExpression power sequence tree left := by
  -- On the number of tokens: an operator before an operand reads a shorter sequence, at a power
  -- of its own.
  induction length : sequence.tokens.length using Nat.strongRecOn
    generalizing sequence power with
  | _ size ih =>
      have shorter (sequence : OperatorSequence) (short : sequence.tokens.length < size)
          (power : Nat) : ∃ tree left, ReadsExpression power sequence tree left :=
        ih _ short sequence power rfl
      obtain ⟨⟨prefixes, leaf⟩, others⟩ := sequence
      obtain ⟨lhs, middle, needed, operand⟩ : ∃ lhs middle needed,
          ReadsOperand ⟨⟨prefixes, leaf⟩, others⟩ lhs middle needed := by
        cases prefixes with
        | nil => exact ⟨_, _, _, readsOperand_leaf leaf⟩
        | cons mark prefixes =>
            obtain ⟨tree, left, inner⟩ := shorter ⟨⟨prefixes, leaf⟩, others⟩
              (by rw [← length]; exact Nat.lt_succ_self _) mark.op.power
            exact ⟨_, _, _, readsOperand_unary inner⟩
      have short_middle : (operandTokens middle).length ≤ size := by
        obtain ⟨-, rfl⟩ := OperatorSequence.mk.inj operand.written
        have := length_operandTokens_append lhs.written.others middle
        simp only [OperatorSequence.tokens, List.length_append] at length
        omega
      obtain ⟨tree, left, more, more_read⟩ := exists_readsOthers shorter short_middle
        operand.grouped (OperatorTree.atLeast_of_not_isBinary operand.single)
        (fun _ _ => OperatorTree.atLeast_of_not_isBinary operand.single)
      exact ⟨tree, left, readsExpression operand more_read⟩

theorem exists_tree_of_sequence (sequence : OperatorSequence) :
    ∃ tree : OperatorTree, tree.written = sequence ∧ tree.Grouped ∧
      ReadsBetween (fun levels => phrase levels (.expression 0)) tree.levels sequence.tokens
        tree.node [] := by
  obtain ⟨tree, left, read⟩ := exists_readsExpression sequence 0
  cases left with
  | nil =>
      have written := read.written
      rw [List.append_nil] at written
      exact ⟨tree, written.symm, read.grouped, read.reads⟩
  | cons operand left => exact absurd (read.stops operand rfl) (Nat.not_lt_zero _)

/-- Whether a token can begin an item of a group without being a mark of the group. -/
def BeginsItem (token : Token) : Prop :=
  token.kind ≠ .rparen ∧ token.kind ≠ .colon ∧ token.kind ≠ .dotDot ∧ token.kind ≠ .eof

theorem beginsItem_tokens (sequence : OperatorSequence) :
    ∃ token tokens, sequence.tokens = token :: tokens ∧ BeginsItem token := by
  obtain ⟨⟨prefixes, leaf⟩, others⟩ := sequence
  cases prefixes with
  | nil =>
      refine ⟨leaf.token, operandTokens others, rfl, ?_⟩
      obtain ⟨token, node, isLeaf⟩ := leaf
      unfold BeginsItem
      cases isLeaf with
      | codeStr kind | ident kind | int kind read | float kind read | bool kind | noneLit kind
      | autoLit kind => simp [kind]
  | cons mark prefixes =>
      refine ⟨mark.token, OperatorSequence.tokens ⟨⟨prefixes, leaf⟩, others⟩, rfl, ?_⟩
      have kind := mark.kind
      refine ⟨?_, ?_, ?_, ?_⟩
      all_goals
        intro same
        rw [same] at kind
        cases kind

theorem groupOf_tree (tree : OperatorTree) (place : Place) :
    groupOf [tree.node] false place = pure (.parenthesized tree.node place) := by
  cases tree with
  | operand leaf =>
      obtain ⟨token, node, isLeaf⟩ := leaf
      cases isLeaf <;> rfl
  | unary mark expr => rfl
  | binary lhs mark rhs => rfl

section

variable {token opening closing : Token} {tokens : List Token} {node : Node}

theorem needs_codeItem (begins : BeginsItem token) (noColon : closing.kind ≠ .colon)
    (needs : Needs (fun levels => phrase levels (.expression 0)) needed
      ⟨token, tokens, errors⟩ node ⟨closing, rest, errors⟩) :
    Needs (fun levels => codeItem (phrase levels)) needed ⟨token, tokens, errors⟩ node
      ⟨closing, rest, errors⟩ := by
  obtain ⟨-, -, noDots, -⟩ := begins
  refine needs.through (fun levels read => ?_) (fun levels stop broken => ?_) rfl rfl
  · unfold codeItem
    rw [isAt_bind, decide_eq_false noDots, if_neg Bool.false_ne_true, bind_apply, read]
    dsimp only
    rw [isAt_bind, decide_eq_false noColon]
    rfl
  · unfold codeItem
    rw [isAt_bind, decide_eq_false noDots, if_neg Bool.false_ne_true, bind_apply, broken]

theorem needs_codeItems (begins : BeginsItem token) (kind : closing.kind = .rparen)
    (needs : Needs (fun levels => codeItem (phrase levels)) needed ⟨token, tokens, errors⟩ node
      ⟨closing, rest, errors⟩) :
    Needs (fun levels => codeItems (phrase levels)) needed ⟨token, tokens, errors⟩
      ([node], false) ⟨closing, rest, errors⟩ := by
  obtain ⟨noClose, -, -, inText⟩ := begins
  have goesOn : ¬(token.kind = .rparen ∨ token.kind = .eof) := not_or.mpr ⟨noClose, inText⟩
  refine needs.through (fun levels read => ?_) (fun levels stop broken => ?_) rfl rfl
  · unfold codeItems
    rw [remaining_bind, codeItemsFrom, current_bind]
    dsimp only
    rw [if_neg goesOn, bind_apply, read]
    dsimp only
    rw [isAt_bind, kind]
    rfl
  · unfold codeItems
    rw [remaining_bind, codeItemsFrom, current_bind]
    dsimp only
    rw [if_neg goesOn, bind_apply, broken]

theorem codeGroup_items {deeper : Phrase → Reading Node} (begins : BeginsItem token) :
    codeGroup deeper ⟨opening, token :: tokens, errors⟩ =
      (codeItems deeper >>= fun (items, afterComma) => do
        let closing ← expect .rparen
        groupOf items afterComma ⟨.cover opening.range closing.range, .detached⟩)
          ⟨token, tokens, errors⟩ := by
  obtain ⟨noClose, noColon, -, -⟩ := begins
  unfold codeGroup
  rw [advance_bind]
  dsimp only [Cursor.next]
  rw [isAt_bind, decide_eq_false noClose, if_neg Bool.false_ne_true, isAt_bind, peek_bind,
    decide_eq_false noColon, Bool.false_and, if_neg Bool.false_ne_true]

theorem needs_codeGroup_of_items {items : List Node} {afterComma : Bool} {last : Token}
    (kind : closing.kind = .rparen) (begins : BeginsItem token)
    (needs : Needs (fun levels => codeItems (phrase levels)) needed ⟨token, tokens, errors⟩
      (items, afterComma) ⟨closing, last :: rest, errors⟩)
    (grouped : groupOf items afterComma ⟨.cover opening.range closing.range, .detached⟩ =
      pure node) :
    Needs (fun levels => codeGroup (phrase levels)) needed ⟨opening, token :: tokens, errors⟩ node
      ⟨last, rest, errors⟩ := by
  refine needs.through (fun levels read => ?_) (fun levels stop broken => ?_) rfl rfl
  · rw [codeGroup_items begins, bind_apply, read]
    dsimp only
    rw [bind_apply, expect, current_bind]
    dsimp only
    rw [if_pos kind]
    dsimp only [advance]
    rw [grouped]
    rfl
  · rw [codeGroup_items begins, bind_apply, broken]

theorem needs_codeGroup {sequence : OperatorSequence} (kind : closing.kind = .rparen)
    (reads : ReadsBetween (fun levels => phrase levels (.expression 0)) needed sequence.tokens
      tree.node []) :
    Needs (fun levels => codeGroup (phrase levels)) needed
      ⟨opening, sequence.tokens ++ closing :: next :: rest, errors⟩
      (.parenthesized tree.node ⟨.cover opening.range closing.range, .detached⟩)
      ⟨next, rest, errors⟩ := by
  have ends : EndsCode closing := by
    refine ⟨⟨?_, ?_, ?_⟩, ?_⟩ <;> rw [kind]
    · exact nofun
    · exact nofun
    · exact nofun
    · rfl
  have expression := reads closing (next :: rest) errors ends
  obtain ⟨token, tokens, split, begins⟩ := beginsItem_tokens sequence
  rw [split] at expression
  rw [split, List.cons_append]
  have noColon : closing.kind ≠ .colon := by
    rw [kind]
    exact nofun
  have items := needs_codeItems begins kind (needs_codeItem begins noColon expression)
  exact needs_codeGroup_of_items kind begins items (groupOf_tree tree _)

theorem codeAtom_group {deeper : Phrase → Reading Node} (atOpening : opening.kind = .lparen) :
    codeAtom deeper ⟨opening, tokens, errors⟩ = codeGroup deeper ⟨opening, tokens, errors⟩ := by
  unfold codeAtom
  rw [current_bind]
  dsimp only
  rw [atOpening]

theorem atom_embedded {deeper : Phrase → Reading Node} {stops : List TokenKind} {hash : Token}
    (atHash : hash.kind = .hash) :
    Grammar.atom deeper stops ⟨hash, opening :: tokens, errors⟩ =
      (codeAtom deeper >>= codeTail deeper) ⟨opening, tokens, errors⟩ := by
  unfold Grammar.atom
  rw [current_bind]
  dsimp only
  rw [atHash]
  rfl

theorem needs_embedded {stops : List TokenKind} {hash : Token} {last : Cursor}
    (atHash : hash.kind = .hash) (atOpening : opening.kind = .lparen)
    (ends : EndsOperand last.current)
    (needs : Needs (fun levels => codeGroup (phrase levels)) needed ⟨opening, tokens, errors⟩ node
      last) :
    Needs (fun levels => phrase levels (.atom stops)) (needed + 1)
      ⟨hash, opening :: tokens, errors⟩ node last := by
  refine .deeper (needs.through (fun levels read => ?_) (fun levels stop broken => ?_) rfl rfl)
  · refine (atom_embedded atHash).trans ?_
    rw [bind_apply, codeAtom_group atOpening, read]
    exact codeTail_stops ends
  · refine (atom_embedded atHash).trans ?_
    rw [bind_apply, codeAtom_group atOpening, broken]

end

end Grammar

/-- A sequence of operands and operators between parentheses is read as a group of one tree,
which has the operands and operators of the sequence in order and groups them by their powers.
It takes as many levels as the tree has and gives no fault. If no operand has an operator before
it, the sequence is grouped by its powers in no other way. -/
theorem operators_grouped (sequence : OperatorSequence) :
    ∃ tree : OperatorTree, tree.written = sequence ∧ tree.Grouped ∧
      (sequence.IsBare → ∀ other : OperatorTree, other.Grouped → other.written = sequence →
        other = tree) ∧
      (∀ opening closing next rest errors, closing.kind = .rparen →
        Needs (fun levels => codeGroup (phrase levels)) tree.levels
          ⟨opening, sequence.tokens ++ closing :: next :: rest, errors⟩
          (.parenthesized tree.node ⟨.cover opening.range closing.range, .detached⟩)
          ⟨next, rest, errors⟩) ∧
      (∀ text hash opening closing last, hash.kind = .hash → opening.kind = .lparen →
        closing.kind = .rparen →
        tokenize text = .ok ⟨hash :: opening :: sequence.tokens ++ [closing], last⟩ →
          ∃ range, Formula.ofText text =
            if tree.levels < maxNesting then
              .ok ⟨[.parenthesized tree.node ⟨.cover opening.range closing.range, .detached⟩],
                ⟨.between 0 last.range.stop, .detached⟩⟩
            else .error (.errors [⟨.parsedTooDeep, range⟩])) := by
  obtain ⟨tree, written, grouped, reads⟩ := exists_tree_of_sequence sequence
  refine ⟨tree, written, grouped, ?_, ?_, ?_⟩
  · intro bare other grouped_other same
    exact OperatorTree.eq_of_written grouped grouped_other (same.trans written.symm)
      (written.symm ▸ bare)
  · intro opening closing next rest errors kind
    exact needs_codeGroup kind reads
  · intro text hash opening closing last atHash atOpening kind tokenized
    have inOrder := TokenList.inOrder_of_tokenize tokenized
    have isEnd : last.kind = .eof := congrArg Token.kind inOrder.last
    have group : Needs (fun levels => codeGroup (phrase levels)) tree.levels
        ⟨opening, sequence.tokens ++ closing :: last :: [], []⟩
        (.parenthesized tree.node ⟨.cover opening.range closing.range, .detached⟩)
        ⟨last, [], []⟩ :=
      needs_codeGroup kind reads
    have noTail : EndsOperand last := by
      unfold EndsOperand
      simp [isEnd]
    have noScripts : LeavesScripts none last := by
      intro side ofKind
      rw [isEnd] at ofKind
      cases ofKind
    have noPrime : last.kind ≠ .prime ∧ last.kind ≠ .slash := by
      rw [isEnd]
      exact ⟨nofun, nofun⟩
    have whole : Needs (fun levels => fraction (phrase levels) []) (tree.levels + 1)
        ⟨hash, opening :: sequence.tokens ++ [closing] ++ [last], []⟩
        (.parenthesized tree.node ⟨.cover opening.range closing.range, .detached⟩)
        ⟨last, [], []⟩ := by
      rw [List.append_assoc]
      exact needs_fraction noPrime.2 (needs_attachment noPrime.1
        (needs_embedded atHash atOpening noTail group) (needs_no_scripts noScripts))
    unfold Formula.ofText
    rw [tokenized]
    exact Formula.ofTokens_of_needs rfl (inOrder.inText hash List.mem_cons_self) isEnd whole

def CodeLeaf.letter (c : Char) (start : Nat) : CodeLeaf :=
  ⟨⟨.ident, c.toString, .ofLength start 1⟩,
    .ident c.toString ⟨.ofLength start 1, .detached⟩, .ident rfl⟩

def OperatorTree.differences : OperatorTree :=
  .binary (.binary (.operand (.letter 'a' 2)) ⟨.sub, ⟨.minus, "-", .ofLength 3 1⟩, rfl⟩
      (.operand (.letter 'b' 4))) ⟨.sub, ⟨.minus, "-", .ofLength 5 1⟩, rfl⟩
    (.binary (.operand (.letter 'c' 6)) ⟨.mul, ⟨.star, "*", .ofLength 7 1⟩, rfl⟩
      (.operand (.letter 'd' 8)))

/-- The tree of a text with subtractions from the left and a product on the right. -/
theorem operators_grouped_of_differences :
    Formula.ofText "#(a-b-c*d)" =
      .ok ⟨[.parenthesized OperatorTree.differences.node ⟨.between 1 10, .detached⟩],
        ⟨.between 0 10, .detached⟩⟩ ∧
    Needs (fun levels => codeGroup (phrase levels)) 6
      ⟨⟨.lparen, "(", .ofLength 1 1⟩, OperatorTree.differences.written.tokens ++
        [⟨.rparen, ")", .ofLength 9 1⟩, ⟨.eof, "", .empty 10⟩], []⟩
      (.parenthesized OperatorTree.differences.node ⟨.between 1 10, .detached⟩)
      ⟨⟨.eof, "", .empty 10⟩, [], []⟩ := by
  obtain ⟨tree, written, grouped, unique, group, ofText⟩ :=
    operators_grouped OperatorTree.differences.written
  have grouped_differences : OperatorTree.differences.Grouped :=
    ⟨⟨trivial, trivial, trivial, trivial⟩, ⟨trivial, trivial, trivial, trivial⟩, Nat.le_refl 7,
      Nat.le_succ 8⟩
  have same := unique ⟨rfl, by decide⟩ _ grouped_differences rfl
  subst same
  have evaluated : (tokenize "#(a-b-c*d)").toOption =
      some ⟨⟨.hash, "#", .ofLength 0 1⟩ :: ⟨.lparen, "(", .ofLength 1 1⟩ ::
        OperatorTree.differences.written.tokens ++ [⟨.rparen, ")", .ofLength 9 1⟩],
          ⟨.eof, "", .empty 10⟩⟩ := by
    decide +kernel
  refine ⟨?_, group _ ⟨.rparen, ")", .ofLength 9 1⟩ _ [] _ rfl⟩
  cases tokenized : tokenize "#(a-b-c*d)" with
  | error errors =>
      rw [tokenized] at evaluated
      cases evaluated
  | ok tokens =>
      rw [tokenized] at evaluated
      cases evaluated
      obtain ⟨range, read⟩ := ofText _ _ _ _ _ rfl rfl rfl tokenized
      exact read

end EquationMap
