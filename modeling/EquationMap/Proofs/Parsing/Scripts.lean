import EquationMap.Proofs.Parsing.Needs
import EquationMap.Proofs.Lexing.Coverage

namespace EquationMap

open Grammar Reading

/-- Tokens that are an atom of mathematics by themselves. -/
def TokenKind.isLone : TokenKind → Bool
  | text | ident | escape | shorthand | string => true
  | _ => false

/-- A token that is an atom of mathematics. -/
structure LoneAtom where
  token : Token
  isLone : token.kind.isLone = true

def LoneAtom.node (atom : LoneAtom) : Node :=
  let place : Place := ⟨atom.token.range, .detached⟩
  match atom.token.kind with
  | .ident => .mathIdent atom.token.value place
  | .shorthand => .shorthand atom.token.value (Token.symbolOf atom.token.value) place
  | .string => .str atom.token.value place
  | _ => .text atom.token.value place

/-- A mark with the atom that it makes a script. -/
structure ScriptMark where
  side : ScriptSide
  mark : Token
  kind : mark.kind = side.kind
  operand : LoneAtom

/-- An atom with scripts written one after the other. -/
structure ScriptChain where
  base : LoneAtom
  scripts : List ScriptMark

def ScriptMark.tokens (script : ScriptMark) : List Token :=
  [script.mark, script.operand.token]

def ScriptChain.tokens (chain : ScriptChain) : List Token :=
  chain.base.token :: chain.scripts.flatMap ScriptMark.tokens

/-- An atom on a side of another one. -/
structure ScriptLink where
  base : LoneAtom
  side : ScriptSide
  operand : LoneAtom

/-- A script of a chain, and whether it is the first one of its base. -/
structure ScriptPlacement extends ScriptLink where
  isFirst : Bool

/-- Where the next script of a chain goes: to the base of the script before it if that was the
first one there and is on the other side, and to the operand of that script otherwise. -/
def ScriptPlacement.next (placement : ScriptPlacement) (script : ScriptMark) : ScriptPlacement :=
  if script.side ≠ placement.side ∧ placement.isFirst then
    ⟨⟨placement.base, script.side, script.operand⟩, false⟩
  else ⟨⟨placement.operand, script.side, script.operand⟩, true⟩

def ScriptPlacement.others (placement : ScriptPlacement) :
    List ScriptMark → List ScriptPlacement
  | [] => []
  | script :: rest => placement.next script :: (placement.next script).others rest

/-- Where the scripts of a chain go; the first one goes to the base of the chain. -/
def ScriptChain.placements (chain : ScriptChain) : List ScriptPlacement :=
  match chain.scripts with
  | [] => []
  | script :: rest =>
      let first : ScriptPlacement := ⟨⟨chain.base, script.side, script.operand⟩, true⟩
      first :: first.others rest

/-- Atoms with a script on one side, or on both sides with the side of the first one. -/
inductive ScriptTree where
  | atom (atom : LoneAtom)
  | one (base : LoneAtom) (side : ScriptSide) (script : ScriptTree)
  | both (base : LoneAtom) (side : ScriptSide) (first second : ScriptTree)

namespace ScriptTree

/-- The atom that the scripts of a tree are put on. -/
def head : ScriptTree → LoneAtom
  | atom base | one base _ _ | both base _ _ _ => base

/-- Which atom of a tree is on which side of which other one, in the order of the text. -/
def links : ScriptTree → List ScriptLink
  | atom _ => []
  | one base side script => ⟨base, side, script.head⟩ :: script.links
  | both base side first second =>
      ⟨base, side, first.head⟩ :: first.links ++ ⟨base, side.other, second.head⟩ :: second.links

def node : ScriptTree → Node
  | atom base => base.node
  | one base side script => attached base.node (Scripts.put {} side script.node)
  | both base side first second =>
      attached base.node ((Scripts.put {} side first.node).put side.other second.node)

/-- How many levels of nesting a tree takes up. -/
def levels : ScriptTree → Nat
  | atom _ => 1
  | one _ _ script => script.levels + 1
  | both _ _ first second => max first.levels second.levels + 1

def ofScripts (base : LoneAtom) : List ScriptMark → ScriptTree
  | [] => atom base
  | [script] => one base script.side (atom script.operand)
  | script :: second :: rest =>
      if second.side = script.side then
        one base script.side (ofScripts script.operand (second :: rest))
      else both base script.side (atom script.operand) (ofScripts second.operand rest)

end ScriptTree

def ScriptChain.tree (chain : ScriptChain) : ScriptTree :=
  .ofScripts chain.base chain.scripts

theorem ScriptSide.other_of_ne {side other : ScriptSide} (differ : other ≠ side) :
    side.other = other := by
  cases side <;> cases other <;> first | rfl | exact absurd rfl differ

theorem ScriptTree.head_ofScripts (base : LoneAtom) (scripts : List ScriptMark) :
    (ofScripts base scripts).head = base := by
  unfold ofScripts
  split
  · rfl
  · rfl
  · split <;> rfl

/-- Each script of a chain is in the tree once, and where it has been placed. -/
theorem ScriptChain.links_tree (chain : ScriptChain) :
    chain.tree.links = chain.placements.map (·.toScriptLink) := by
  obtain ⟨base, scripts⟩ := chain
  unfold tree
  dsimp only
  induction base, scripts using ScriptTree.ofScripts.induct with
  | case1 base => rfl
  | case2 base script => rfl
  | case3 base script second rest same ih =>
      rw [ScriptTree.ofScripts, if_pos same, ScriptTree.links, ih, ScriptTree.head_ofScripts]
      simp [placements, ScriptPlacement.others, ScriptPlacement.next, same]
  | case4 base script second rest differ ih =>
      rw [ScriptTree.ofScripts, if_neg differ, ScriptTree.links, ih, ScriptTree.head_ofScripts]
      have isOther := ScriptSide.other_of_ne differ
      cases rest <;>
        simp [placements, ScriptPlacement.others, ScriptPlacement.next, differ, isOther,
          ScriptTree.head, ScriptTree.links]

namespace Grammar

variable {stops : List TokenKind} {stop : Option ScriptSide} {next : Token}
  {tokens rest : List Token} {errors : List SyntaxError}

/-- Whether a token after an atom leaves it as it is: a parenthesis right after a name makes a
call of it. -/
def LeavesAtom (atom : LoneAtom) (next : Token) : Prop :=
  ¬(atom.token.kind = .ident ∧ next.kind = .lparen ∧ atom.token.range.stop = next.range.start)

theorem needs_atom {atom : LoneAtom} (leaves : LeavesAtom atom next) :
    Needs (fun levels => phrase levels (.atom stops)) 1 ⟨atom.token, next :: rest, errors⟩
      atom.node ⟨next, rest, errors⟩ := by
  refine .deeper (.of_read (fun levels => ?_) rfl)
  obtain ⟨token, isLone⟩ := atom
  unfold LeavesAtom at leaves
  unfold body Grammar.atom LoneAtom.node
  simp only [current_bind]
  cases kind : token.kind
  case ident =>
    have noCall : ¬(next.kind = .lparen ∧ token.range.stop = next.range.start) :=
      fun calls => leaves ⟨kind, calls⟩
    simp only [peek_bind, branch_apply, advance_bind, pure_apply]
    exact if_neg noCall
  case text | escape | shorthand | string => rfl
  all_goals
    rw [kind] at isLone
    cases isLone

theorem LoneAtom.goesOn (noLone : ∀ kind ∈ stops, kind.isLone = false) (atom : LoneAtom) :
    ¬Cursor.endsSequence ⟨atom.token, rest, errors⟩ stops = true := by
  obtain ⟨token, isLone⟩ := atom
  intro ends
  simp only [Cursor.endsSequence, Bool.or_eq_true, decide_eq_true_eq, List.contains_iff_mem]
    at ends
  rcases ends with atEnd | member
  · rw [atEnd] at isLone
    cases isLone
  · rw [noLone _ member] at isLone
    cases isLone

theorem needs_script (noLone : ∀ kind ∈ stops, kind.isLone = false) (script : ScriptMark)
    {node : Node} {needed : Nat} {last : Cursor}
    (needs : Needs (fun levels => attachment (phrase levels) stops stop) needed
      ⟨script.operand.token, rest, errors⟩ node last) :
    Needs (fun levels => Grammar.script (phrase levels) script.side script.mark stops stop)
      (needed + 1) ⟨script.operand.token, rest, errors⟩ (some node) last := by
  have deeper : Needs (fun levels => phrase levels (.script script.mark.range stops stop))
      (needed + 1) ⟨script.operand.token, rest, errors⟩ node last :=
    .deeper needs
  have found : Needs (fun levels => some <$> phrase levels (.script script.mark.range stops stop))
      (needed + 1) ⟨script.operand.token, rest, errors⟩ (some node) last :=
    deeper.map
  refine found.later (fun levels => ?_) rfl
  unfold Grammar.script
  rw [endsSequence_bind, if_neg (LoneAtom.goesOn noLone script.operand)]

theorem needs_no_second {side : ScriptSide} {found : Scripts} (differs : next.kind ≠ side.kind) :
    Needs (fun levels => secondScript (phrase levels) side stops found) 0 ⟨next, rest, errors⟩
      found ⟨next, rest, errors⟩ := by
  refine .of_read (fun levels => ?_) rfl
  unfold secondScript
  rw [isAt_bind, decide_eq_false differs]
  rfl

def putSecond (found : Scripts) (side : ScriptSide) : Option Node → Reading Scripts
  | some node => return found.put side node
  | none => return found

theorem needs_second {script : ScriptMark} {side : ScriptSide} {node : Node} {found : Scripts}
    {needed : Nat} {last : Cursor} (same : side = script.side)
    (needs : Needs
      (fun levels => Grammar.script (phrase levels) script.side script.mark stops none) needed
      ⟨script.operand.token, rest, errors⟩ (some node) last) :
    Needs (fun levels => secondScript (phrase levels) side stops found) needed
      ⟨script.mark, script.operand.token :: rest, errors⟩ (found.put side node) last := by
  subst same
  have put : Needs (fun levels =>
      Grammar.script (phrase levels) script.side script.mark stops none >>=
        putSecond found script.side) needed ⟨script.operand.token, rest, errors⟩
      (found.put script.side node) last :=
    needs.ending (fun _ => rfl) rfl
  refine put.later (fun levels => ?_) rfl
  unfold secondScript
  rw [isAt_bind, decide_eq_true script.kind, if_pos rfl]
  rfl

def afterFirst (levels : Nat) (stops : List TokenKind) (side : ScriptSide) :
    Option Node → Reading Scripts
  | some node => secondScript (phrase levels) side.other stops (Scripts.put {} side node)
  | none => return {}

theorem needs_scripts {script : ScriptMark} {node : Node} {found : Scripts}
    {first second : Nat} {middle last : Cursor} (free : some script.side ≠ stop)
    (needs : Needs
      (fun levels => Grammar.script (phrase levels) script.side script.mark stops
        (some script.side.other)) first ⟨script.operand.token, rest, errors⟩ (some node) middle)
    (needs_second : Needs
      (fun levels => secondScript (phrase levels) script.side.other stops
        (Scripts.put {} script.side node)) second middle found last) :
    Needs (fun levels => Grammar.scripts (phrase levels) stops stop) (max first second)
      ⟨script.mark, script.operand.token :: rest, errors⟩ found last := by
  have both : Needs (fun levels =>
      Grammar.script (phrase levels) script.side script.mark stops (some script.side.other) >>=
        afterFirst levels stops script.side) (max first second)
      ⟨script.operand.token, rest, errors⟩ found last :=
    needs.bind needs_second
  refine both.later (fun levels => ?_) rfl
  have ofKind : ScriptSide.ofKind? script.mark.kind = some script.side := by
    rw [script.kind]
    cases script.side <;> rfl
  unfold Grammar.scripts
  rw [current_bind]
  dsimp only
  rw [ofKind]
  dsimp only
  rw [if_neg free, advance_bind]
  rfl

theorem leavesAtom_mark (atom : LoneAtom) (script : ScriptMark) : LeavesAtom atom script.mark := by
  rintro ⟨-, opens, -⟩
  rw [script.kind] at opens
  cases side : script.side <;> rw [side] at opens <;> cases opens

theorem leavesScripts_mark {script : ScriptMark} {side : ScriptSide}
    (same : side = script.side) : LeavesScripts (some side) script.mark := by
  intro found ofKind
  rw [script.kind] at ofKind
  subst same
  cases side : script.side <;> rw [side] at ofKind <;> cases ofKind <;> rfl

theorem mark_ne_prime (script : ScriptMark) : script.mark.kind ≠ .prime := by
  rw [script.kind]
  cases script.side <;> decide

/-- Whether a token after an atom is neither a script nor a prime mark of it. -/
structure EndsScripts (atom : LoneAtom) (next : Token) : Prop where
  leaves : LeavesAtom atom next
  noPrime : next.kind ≠ .prime
  noScript : ScriptSide.ofKind? next.kind = none

theorem EndsScripts.leavesScripts {atom : LoneAtom} (ends : EndsScripts atom next) :
    LeavesScripts stop next := by
  intro side ofKind
  rw [ends.noScript] at ofKind
  cases ofKind

theorem EndsScripts.ne_kind {atom : LoneAtom} (ends : EndsScripts atom next)
    (side : ScriptSide) : next.kind ≠ side.kind := by
  intro same
  have noScript := ends.noScript
  rw [same] at noScript
  cases side <;> cases noScript

theorem endsScripts_of_eof {atom : LoneAtom} (isEnd : next.kind = .eof) :
    EndsScripts atom next := by
  refine ⟨?_, ?_, ?_⟩
  · rintro ⟨-, opens, -⟩
    rw [isEnd] at opens
    cases opens
  · rw [isEnd]
    decide
  · rw [isEnd]
    rfl

end Grammar

def ScriptChain.last (chain : ScriptChain) : LoneAtom :=
  (chain.scripts.getLast?.map ScriptMark.operand).getD chain.base

theorem ScriptChain.last_cons (base : LoneAtom) (script : ScriptMark) (rest : List ScriptMark) :
    last ⟨base, script :: rest⟩ = last ⟨script.operand, rest⟩ := by
  simp only [last, List.getLast?_cons, Option.map_some, Option.getD_some]
  cases rest.getLast? <;> rfl

namespace Grammar

theorem needs_lone {atom : LoneAtom} (leaves : LeavesAtom atom next)
    (noPrime : next.kind ≠ .prime) (leavesScripts : LeavesScripts stop next) :
    Needs (fun levels => attachment (phrase levels) stops stop) 1
      ⟨atom.token, next :: rest, errors⟩ atom.node ⟨next, rest, errors⟩ :=
  needs_attachment noPrime (needs_atom leaves) (needs_no_scripts leavesScripts)

theorem needs_one {base : LoneAtom} {script : ScriptMark} {node : Node} {needed : Nat}
    (noLone : ∀ kind ∈ stops, kind.isLone = false)
    (free : some script.side ≠ stop) (noSecond : next.kind ≠ script.side.other.kind)
    (needs : Needs (fun levels => attachment (phrase levels) stops (some script.side.other))
      needed ⟨script.operand.token, tokens, errors⟩ node ⟨next, rest, errors⟩) :
    Needs (fun levels => attachment (phrase levels) stops stop) (needed + 1)
      ⟨base.token, script.mark :: script.operand.token :: tokens, errors⟩
      (attached base.node (Scripts.put {} script.side node)) ⟨next, rest, errors⟩ := by
  have scripts := needs_scripts free (needs_script noLone script needs)
    (needs_no_second noSecond)
  have whole := needs_attachment (mark_ne_prime script)
    (needs_atom (leavesAtom_mark base script)) scripts
  exact whole.of_levels (by omega)

theorem needs_both {base : LoneAtom} {script second : ScriptMark} {node node_second : Node}
    {first more : Nat} {last : Cursor} (noLone : ∀ kind ∈ stops, kind.isLone = false)
    (free : some script.side ≠ stop) (isOther : script.side.other = second.side)
    (needs : Needs (fun levels => attachment (phrase levels) stops (some script.side.other))
      first ⟨script.operand.token, second.mark :: second.operand.token :: tokens, errors⟩ node
      ⟨second.mark, second.operand.token :: tokens, errors⟩)
    (needs_more : Needs (fun levels => attachment (phrase levels) stops none) more
      ⟨second.operand.token, tokens, errors⟩ node_second last) :
    Needs (fun levels => attachment (phrase levels) stops stop) (max first more + 1)
      ⟨base.token, script.mark :: script.operand.token :: second.mark ::
        second.operand.token :: tokens, errors⟩
      (attached base.node
        ((Scripts.put {} script.side node).put script.side.other node_second)) last := by
  have scripts := needs_scripts free (needs_script noLone script needs)
    (needs_second isOther (needs_script noLone second needs_more))
  have whole := needs_attachment (mark_ne_prime script)
    (needs_atom (leavesAtom_mark base script)) scripts
  exact whole.of_levels (by omega)

/-- The atom of a chain is read with all scripts of the chain, in the tree of the chain. -/
theorem needs_scripts_of_chain (noLone : ∀ kind ∈ stops, kind.isLone = false)
    (base : LoneAtom) (scripts : List ScriptMark)
    (ends : EndsScripts (ScriptChain.last ⟨base, scripts⟩) next)
    (free : ∀ first ∈ scripts.head?, some first.side ≠ stop) :
    Needs (fun levels => attachment (phrase levels) stops stop)
      (ScriptTree.ofScripts base scripts).levels
      ⟨base.token, scripts.flatMap ScriptMark.tokens ++ next :: rest, errors⟩
      (ScriptTree.ofScripts base scripts).node ⟨next, rest, errors⟩ := by
  -- Along the recursion that makes the tree. That the first mark is not kept for an outer atom
  -- holds again for the operand that the rest of the chain is read from.
  induction base, scripts using ScriptTree.ofScripts.induct generalizing stop with
  | case1 base => exact needs_lone ends.leaves ends.noPrime ends.leavesScripts
  | case2 base script =>
      exact needs_one noLone (free script rfl) (ends.ne_kind _)
        (needs_lone ends.leaves ends.noPrime ends.leavesScripts)
  | case3 base script second others same ih =>
      rw [ScriptChain.last_cons] at ends
      rw [ScriptTree.ofScripts, if_pos same]
      refine needs_one noLone (free script rfl) (ends.ne_kind _) (ih ends ?_)
      rintro first ⟨⟩
      rw [same]
      cases script.side <;> decide
  | case4 base script second others differ ih =>
      rw [ScriptChain.last_cons, ScriptChain.last_cons] at ends
      rw [ScriptTree.ofScripts, if_neg differ]
      have isOther := ScriptSide.other_of_ne differ
      have alone : Needs
          (fun levels => attachment (phrase levels) stops (some script.side.other)) 1
          ⟨script.operand.token, second.mark :: second.operand.token ::
            (others.flatMap ScriptMark.tokens ++ next :: rest), errors⟩ script.operand.node
          ⟨second.mark, second.operand.token ::
            (others.flatMap ScriptMark.tokens ++ next :: rest), errors⟩ :=
        needs_lone (leavesAtom_mark _ second) (mark_ne_prime second) (leavesScripts_mark isOther)
      exact needs_both noLone (free script rfl) isOther alone
        (ih ends fun _ _ => Option.some_ne_none _)

end Grammar

/-- A chain of scripts makes one tree, in which each script is on the atom it is placed on, above
or below it and alone on that side. The tree is read wherever neither a script nor a prime mark
follows the chain, with as many levels as the tree has and without a fault, and a text of the
chain alone is a formula of that tree unless it nests too deeply. -/
theorem scripts_placed_once (chain : ScriptChain) :
    chain.tree.links = chain.placements.map (·.toScriptLink) ∧
    (∀ stops next rest errors, (∀ kind ∈ stops, kind.isLone = false) →
      EndsScripts chain.last next →
        Needs (fun levels => attachment (phrase levels) stops none) chain.tree.levels
          ⟨chain.base.token, chain.scripts.flatMap ScriptMark.tokens ++ next :: rest, errors⟩
          chain.tree.node ⟨next, rest, errors⟩) ∧
    (∀ text last, tokenize text = .ok ⟨chain.tokens, last⟩ → ∃ range, Formula.ofText text =
      if chain.tree.levels ≤ maxNesting then
        .ok ⟨[chain.tree.node], ⟨.between 0 last.range.stop, .detached⟩⟩
      else .error (.errors [⟨.parsedTooDeep, range⟩])) := by
  refine ⟨chain.links_tree, ?_, ?_⟩
  · intro stops next rest errors noLone ends
    exact needs_scripts_of_chain noLone chain.base chain.scripts ends
      fun _ _ => Option.some_ne_none _
  · intro text last tokenized
    have inOrder := TokenList.inOrder_of_tokenize tokenized
    have isEnd : last.kind = .eof := congrArg Token.kind inOrder.last
    have needs : Needs (fun levels => attachment (phrase levels) [] none) chain.tree.levels
        ⟨chain.base.token, chain.scripts.flatMap ScriptMark.tokens ++ [last], []⟩
        chain.tree.node ⟨last, [], []⟩ :=
      needs_scripts_of_chain (List.forall_mem_nil _) chain.base chain.scripts
        (endsScripts_of_eof isEnd) fun _ _ => Option.some_ne_none _
    have noSlash : last.kind ≠ .slash := by
      rw [isEnd]
      decide
    unfold Formula.ofText
    rw [tokenized]
    exact Formula.ofTokens_of_needs rfl (inOrder.inText _ List.mem_cons_self) isEnd
      (needs_fraction noSlash needs)

def LoneAtom.letter (c : Char) (start : Nat) : LoneAtom :=
  ⟨⟨.text, c.toString, .ofLength start 1⟩, rfl⟩

/-- A letter above or below, whose mark is at an offset. -/
def ScriptMark.letter (side : ScriptSide) (c : Char) (start : Nat) : ScriptMark :=
  ⟨side, ⟨side.kind, if side = .above then "^" else "_", .ofLength start 1⟩, rfl,
    .letter c (start + 1)⟩

/-- Three scripts: the second one is on the base as well, the third one on the second. -/
theorem scripts_placed_once_of_three :
    ∃ chain : ScriptChain, ∃ last, tokenize "x^a_b_c" = .ok ⟨chain.tokens, last⟩ ∧
      chain.tree = .both (.letter 'x' 0) .above (.atom (.letter 'a' 2))
        (.one (.letter 'b' 4) .below (.atom (.letter 'c' 6))) ∧
      Formula.ofText "x^a_b_c" = .ok ⟨[chain.tree.node], ⟨.between 0 last.range.stop, .detached⟩⟩ ∧
      ∀ errors, Needs (fun levels => attachment (phrase levels) [.rparen] none) 3
        ⟨chain.base.token, chain.scripts.flatMap ScriptMark.tokens ++
          [⟨.slash, "/", .ofLength 7 1⟩, last], errors⟩ chain.tree.node
        ⟨⟨.slash, "/", .ofLength 7 1⟩, [last], errors⟩ := by
  let chain : ScriptChain := ⟨.letter 'x' 0,
    [.letter .above 'a' 1, .letter .below 'b' 3, .letter .below 'c' 5]⟩
  have evaluated : (tokenize "x^a_b_c").toOption = some ⟨chain.tokens, ⟨.eof, "", .empty 7⟩⟩ := by
    decide +kernel
  obtain ⟨-, anywhere, ofText⟩ := scripts_placed_once chain
  cases tokenized : tokenize "x^a_b_c" with
  | error errors =>
      rw [tokenized] at evaluated
      cases evaluated
  | ok tokens =>
      rw [tokenized] at evaluated
      cases evaluated
      obtain ⟨range, read⟩ := ofText _ _ tokenized
      refine ⟨chain, _, rfl, rfl, read, fun errors => ?_⟩
      exact anywhere [.rparen] _ _ errors (by decide)
        ⟨by unfold LeavesAtom; decide, by decide, rfl⟩

end EquationMap
