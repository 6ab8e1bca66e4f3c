import EquationMap.Proofs.Parsing.CodeLevels
import EquationMap.Syntax.Formula

namespace EquationMap

/-! How deeply the tree of a text nests. The limit on levels holds for the steps into a
construct. Steps into the operand that a construct goes on from are not bounded by it, since
what was read before has given its levels back, but only so many constructs can follow each
other on a level. -/

open Grammar

theorem Cursor.endsAt_ofTokens {IsEnd : Nat → Prop} (tokens : TokenList)
    (ends : ∀ token ∈ tokens.toList, token.range.EndsAt IsEnd) :
    (Cursor.ofTokens tokens).EndsAt IsEnd := by
  unfold Cursor.ofTokens
  unfold TokenList.toList at ends
  split
  · rename_i empty
    rw [empty] at ends
    exact ⟨ends, fun _ absent => by cases absent⟩
  · rename_i token rest split
    rw [split] at ends
    exact ⟨ends, fun _ absent => by cases absent⟩

/-- In the tree of a text no path takes more steps into constructs than there are levels, and
no more steps in all than the square of that and one. -/
theorem nesting_limited (text : String) (formula : Formula)
    (read : Formula.ofText text = .ok formula) (taken : List Nesting) (inner : Node)
    (path : formula.node.Path taken inner) :
    taken.count .inside ≤ maxNesting ∧ taken.length ≤ maxNesting * maxNesting + 1 := by
  have anywhere (range : ByteRange) : range.EndsAt fun _ => True := ⟨trivial, trivial⟩
  unfold Formula.ofText at read
  split at read
  · rename_i tokens tokenized
    unfold Formula.ofTokens at read
    split at read
    · rename_i exprs cursor sequence_read
      have start := Cursor.endsAt_ofTokens tokens fun token _ => anywhere token.range
      have fit := ((sequence_keeps (phrase_limited maxNesting)).completed start sequence_read).2
      split at read
      · cases read
        have fits : Node.Fits (fun _ => True) maxNesting (maxNesting * maxNesting + 1)
            (.math exprs ⟨.between 0 cursor.current.range.stop, .detached⟩) :=
          .beside (anywhere _) rfl fun part member => (fit part member).2
        exact (fits taken inner path).2
      · cases read
    · cases read
    · cases read
  · cases read

/-- A fraction of a call with rows over a sum in code. -/
theorem nesting_limited_of_fraction :
    ∃ formula, Formula.ofText "f(a, b; c)/#(1 + 2)" = .ok formula ∧
      ∀ taken inner, formula.node.Path taken inner →
        taken.count .inside ≤ 64 ∧ taken.length ≤ 4097 := by
  have accepted : (Formula.ofText "f(a, b; c)/#(1 + 2)").toOption.isSome = true := by
    decide +kernel
  cases read : Formula.ofText "f(a, b; c)/#(1 + 2)" with
  | error failure =>
      rw [read] at accepted
      cases accepted
  | ok formula =>
      exact ⟨formula, rfl, nesting_limited _ formula read⟩

namespace Node

/-- The steps into the first node in a node, again and again. -/
def leadingSteps : Nat → Node → List Nesting
  | 0, _ => []
  | fuel + 1, node =>
      match node.nested, node.alongside with
      | (step, part) :: _, _ => step :: part.leadingSteps fuel
      | [], part :: _ => part.leadingSteps fuel
      | [], [] => []

theorem exists_path_leadingSteps (fuel : Nat) (node : Node) :
    ∃ inner, node.Path (node.leadingSteps fuel) inner := by
  induction fuel generalizing node with
  | zero => exact ⟨node, .here⟩
  | succ fuel ih =>
      unfold leadingSteps
      split
      · rename_i step part rest nested
        obtain ⟨inner, path⟩ := ih part
        exact ⟨inner, .into (by rw [nested]; exact List.mem_cons_self) path⟩
      · rename_i part rest _ along
        obtain ⟨inner, path⟩ := ih part
        exact ⟨inner, .along (by rw [along]; exact List.mem_cons_self) path⟩
      · exact ⟨node, .here⟩

end Node

/-- A letter in so many groups, over two denominators. -/
def groupOverTwo (groups : Nat) : String :=
  String.ofList (List.replicate groups '(' ++ 'a' :: List.replicate groups ')' ++ "/b/c".toList)

/-- A chain of fractions is accepted although its first numerator has all levels of its own. -/
theorem nesting_beyond_levels :
    ∃ formula taken inner, Formula.ofText (groupOverTwo 63) = .ok formula ∧
      formula.node.Path taken inner ∧ maxNesting < taken.length := by
  have evaluated : ((Formula.ofText (groupOverTwo 63)).toOption.any
      fun formula => (formula.node.leadingSteps 70).length = 65) = true := by
    decide +kernel
  cases read : Formula.ofText (groupOverTwo 63) with
  | error failure =>
      rw [read] at evaluated
      cases evaluated
  | ok formula =>
      rw [read] at evaluated
      obtain ⟨inner, path⟩ := formula.node.exists_path_leadingSteps 70
      have length : (formula.node.leadingSteps 70).length = 65 := of_decide_eq_true evaluated
      exact ⟨formula, _, inner, rfl, path, by rw [length]; decide⟩

end EquationMap
