import EquationMap.Proofs.Atoms.Represented
import EquationMap.Proofs.Tree.Placed

namespace EquationMap

/-! What is written in tokens stands for each of them once. The order may change: prime marks
come after the scripts of their atom in a tree, and named arguments come last. -/

open Grammar

/-- The kinds of tokens that a tree may not leave out. -/
def TokenKind.isKept (kind : TokenKind) : Bool :=
  kind.isAtom || kind = .prime

def TreePart.isMark (part : TreePart) : Bool :=
  part.isLeaf || part.isNaming || part.isPrimes

def Node.marks (node : Node) : List TreePart :=
  node.subtree.filter TreePart.isMark

namespace TreePart

def marks (part : TreePart) : List TreePart :=
  part.subtree.filter isMark

@[simp]
theorem marks_node (node : Node) : (TreePart.node node).marks = node.marks :=
  rfl

@[simp]
theorem flatMap_marks_nodes (nodes : List Node) :
    (nodes.map node).flatMap marks = nodes.flatMap Node.marks := by
  rw [List.flatMap_map]
  rfl

theorem marks_eq (part : TreePart) :
    part.marks = (if part.isMark then [part] else []) ++ part.parts.flatMap marks := by
  have below : (part.parts.flatMap subtree).filter isMark = part.parts.flatMap marks := by
    rw [List.filter_flatMap]
    rfl
  rw [marks, subtree_eq, List.filter_cons, below]
  split <;> rfl

@[simp]
theorem marks_arguments (args : List Node) (place : Place) :
    (arguments args place).marks = args.flatMap Node.marks := by
  rw [marks_eq, parts, flatMap_marks_nodes]
  rfl

end TreePart

namespace Node

variable {node : Node}

theorem marks_of_mark (mark : (TreePart.node node).isMark = true) :
    node.marks = .node node :: node.parts.flatMap TreePart.marks := by
  rw [← TreePart.marks_node, TreePart.marks_eq, if_pos mark]
  rfl

theorem marks_of_inner (inner : (TreePart.node node).isMark = false) :
    node.marks = node.parts.flatMap TreePart.marks := by
  rw [← TreePart.marks_node, TreePart.marks_eq, inner]
  rfl

@[simp]
theorem marks_primes (run : Primes) : (primes run).marks = [.node (primes run)] :=
  rfl

@[simp]
theorem marks_text (written : String) (place : Place) :
    (text written place).marks = [.node (text written place)] :=
  rfl

theorem marks_of_one {expr : Node} (inner : (TreePart.node node).isMark = false)
    (parts : node.parts = [.node expr]) : node.marks = expr.marks := by
  rw [marks_of_inner inner, parts]
  simp

theorem marks_of_two {first second : Node} (inner : (TreePart.node node).isMark = false)
    (parts : node.parts = [.node first, .node second]) :
    node.marks = first.marks ++ second.marks := by
  rw [marks_of_inner inner, parts]
  simp

theorem marks_of_list {nodes : List Node} (inner : (TreePart.node node).isMark = false)
    (parts : node.parts = nodes.map .node) : node.marks = nodes.flatMap marks := by
  rw [marks_of_inner inner, parts, TreePart.flatMap_marks_nodes]

theorem marks_call (callee : Node) (args : List Node) (argsPlace place : Place) :
    (call callee args argsPlace place).marks = callee.marks ++ args.flatMap marks := by
  rw [marks_of_inner rfl, parts]
  simp

theorem marks_attach (base : Node) (bottom top : Option Node) (marks : Option Primes)
    (place : Place) :
    (attach base bottom top marks place).marks =
      base.marks ++ ((bottom.toList ++ top.toList).flatMap Node.marks ++
        marks.toList.map fun run => .node (primes run)) := by
  rw [marks_of_inner rfl, parts]
  cases marks <;> simp

@[simp]
theorem marks_math (exprs : List Node) (place : Place) :
    (math exprs place).marks = exprs.flatMap marks :=
  marks_of_list rfl rfl

end Node

/-- The tokens that a part stands for, in a list of tokens. -/
inductive StandsFor (all : List Token) : List Token → TreePart → Prop
  | atom {token : Token} {node : Node} (represents : Represents token node) :
      StandsFor all [token] (.node node)
  | shown {token : Token}
      (kind : token.kind.isKept = false ∨ token.kind.isLiteral = true) :
      StandsFor all [token] (.node (.text token.value ⟨token.range, .detached⟩))
  | run {primes : Primes} {run : List Token} {first last : Token} (within : run <:+: all)
      (kinds : ∀ mark ∈ run, mark.kind = .prime) (head : run.head? = some first)
      (final : run.getLast? = some last) (count : primes.count = run.length)
      (range : primes.place.range = .cover first.range last.range) :
      StandsFor all run (.node (.primes primes))

/-- Between two places in a list of tokens, given by the tokens that follow them, parts stand
for the tokens. -/
inductive Covered (all : List Token) : List TreePart → List Token → List Token → Prop
  | refl {rest : List Token} : Covered all [] rest rest
  | stands {run rest : List Token} {part : TreePart} (stands : StandsFor all run part) :
      Covered all [part] (run ++ rest) rest
  | skip {token : Token} {rest : List Token} (kind : token.kind.isKept = false) :
      Covered all [] (token :: rest) rest
  | trans {parts others : List TreePart} {tokens middle rest : List Token}
      (left : Covered all parts tokens middle) (right : Covered all others middle rest) :
      Covered all (parts ++ others) tokens rest
  | perm {parts others : List TreePart} {tokens rest : List Token}
      (covered : Covered all parts tokens rest) (perm : parts.Perm others) :
      Covered all others tokens rest

namespace Covered

variable {all tokens middle rest : List Token} {parts : List TreePart}

theorem token {token : Token} {part : TreePart} (stands : StandsFor all [token] part) :
    Covered all [part] (token :: rest) rest :=
  .stands stands

theorem suffix (covered : Covered all parts tokens rest) : rest <:+ tokens := by
  induction covered with
  | refl => exact List.suffix_rfl
  | stands => exact List.suffix_append _ _
  | skip => exact List.suffix_cons _ _
  | trans left right left_ih right_ih => exact right_ih.trans left_ih
  | perm covered perm ih => exact ih

theorem after {token : Token} (kind : token.kind.isKept = false)
    (covered : Covered all parts middle rest) : Covered all parts (token :: middle) rest :=
  .trans (.skip kind) covered

theorem before {token : Token} (covered : Covered all parts tokens (token :: rest))
    (kind : token.kind.isKept = false) : Covered all parts tokens rest := by
  have whole := covered.trans (.skip kind)
  rw [List.append_nil] at whole
  exact whole

theorem between {opening closing : Token} (covered : Covered all parts middle (closing :: rest))
    (opening_kind : opening.kind.isKept = false) (closing_kind : closing.kind.isKept = false) :
    Covered all parts (opening :: middle) rest :=
  (covered.before closing_kind).after opening_kind

theorem around {others : List TreePart} {mark : Token}
    (left : Covered all parts tokens (mark :: middle)) (free : mark.kind.isKept = false)
    (right : middle <:+ all → Covered all others middle rest) (within : tokens <:+ all) :
    Covered all (parts ++ others) tokens rest :=
  (left.before free).trans (right ((left.before free).suffix.trans within))

end Covered

def Writing.CoveredBy (all tokens rest : List Token) : Writing → Prop
  | .one _ node => Covered all node.marks tokens rest
  | .many _ nodes => Covered all (nodes.flatMap Node.marks) tokens rest
  | .rows found => (found.hasRows = false → found.rows = []) ∧
      Covered all ((found.rows.flatten ++ found.row ++ found.named).flatMap Node.marks)
        tokens rest
  | .scripts found =>
      Covered all ((found.bottom.toList ++ found.top.toList).flatMap Node.marks) tokens rest

variable {all tokens rest : List Token}

theorem Leaf.coveredBy {role : Role} {token : Token} {node : Node}
    (leaf : Leaf role token node) : Covered all node.marks (token :: rest) rest := by
  cases leaf with
  | text plain =>
      refine .token ?_
      by_cases isAtom : token.kind = .text ∨ token.kind = .escape
      · exact .atom ⟨isAtom, rfl, rfl⟩
      · refine .shown ?_
        cases kind : token.kind <;> simp_all [TokenKind.isKept, TokenKind.isAtom,
          TokenKind.isLiteral, TokenKind.isPlain]
  | mathIdent kind => exact .token (.atom ⟨kind, rfl, rfl⟩)
  | shorthand kind => exact .token (.atom ⟨kind, rfl, rfl, rfl⟩)
  | alignPoint kind => exact .token (.atom ⟨kind, rfl⟩)
  | linebreak kind => exact .token (.atom ⟨kind, rfl⟩)
  | str kind | codeStr kind => exact .token (.atom ⟨kind, rfl, rfl⟩)
  | ident kind => exact .token (.atom ⟨kind, rfl, rfl⟩)
  | int kind read => exact .token (.atom ⟨kind, read, rfl⟩)
  | float kind read => exact .token (.atom ⟨kind, read, rfl⟩)
  | bool kind => exact .token (.atom ⟨kind, rfl, rfl⟩)
  | noneLit kind => exact .token (.atom ⟨kind, rfl⟩)
  | autoLit kind => exact .token (.atom ⟨kind, rfl⟩)

theorem ByteRange.cover_self (range : ByteRange) : cover range range = range := by
  simp only [cover, between, Nat.max_eq_right range.ordered]

theorem Marks.exists_run {primes : Primes} (marks : Marks (some primes) tokens rest) :
    ∃ run first last, tokens = run ++ rest ∧ (∀ mark ∈ run, mark.kind = .prime) ∧
      run.head? = some first ∧ run.getLast? = some last ∧ primes.count = run.length ∧
      primes.place.range = .cover first.range last.range := by
  generalize same : some primes = found at marks
  induction marks generalizing primes with
  | absent => cases same
  | @first mark rest kind =>
      cases same
      exact ⟨[mark], mark, mark, rfl, by simpa using kind, rfl, rfl, rfl,
        (ByteRange.cover_self _).symm⟩
  | @more before tokens rest mark marks kind ih =>
      cases same
      obtain ⟨run, first, last, split, kinds, head, final, count, range⟩ := ih rfl
      refine ⟨run ++ [mark], first, mark, ?_, ?_, ?_, ?_, ?_, ?_⟩
      · rw [split, List.append_assoc]
        rfl
      · intro other member
        rcases List.mem_append.mp member with earlier | isLast
        · exact kinds other earlier
        · rw [List.mem_singleton.mp isLast]
          exact kind
      · rw [List.head?_append, head]
        rfl
      · simp
      · simp [count]
      · simp only [range]
        rfl

theorem Marks.coveredBy {primes : Option Primes} (marks : Marks primes tokens rest)
    (within : tokens <:+ all) :
    Covered all (primes.toList.map fun primes => .node (.primes primes)) tokens rest := by
  cases primes with
  | none =>
      rw [marks.rest_of_absent]
      exact .refl
  | some primes =>
      obtain ⟨run, first, last, rfl, kinds, head, final, count, range⟩ := marks.exists_run
      refine .stands (.run ?_ kinds head final count range)
      exact (List.prefix_append _ _).isInfix.trans within.isInfix

theorem Grammar.ArgumentRows.marks_items {found : ArgumentRows}
    (rowless : found.hasRows = false → found.rows = []) :
    found.items.flatMap Node.marks =
      (found.rows.flatten ++ found.row ++ found.named).flatMap Node.marks := by
  have arrays (rows : List (List Node)) :
      (rows.filterMap arrayOf?).flatMap Node.marks = rows.flatten.flatMap Node.marks := by
    induction rows with
    | nil => rfl
    | cons row rest ih =>
        rw [List.filterMap_cons, List.flatten_cons, List.flatMap_append, ← ih]
        cases row with
        | nil => rfl
        | cons first others =>
            simp only [arrayOf?, List.flatMap_cons]
            rw [Node.marks_of_inner rfl, Node.parts, TreePart.flatMap_marks_nodes,
              List.flatMap_cons]
  rw [items]
  split
  · rw [List.flatMap_append, arrays, List.flatten_append, ← List.flatMap_append]
    simp
  · rename_i single
    rw [rowless (Bool.eq_false_iff.mpr single)]
    rfl

theorem Grammar.ArgumentRows.marks_add (found : ArgumentRows) (node : Node) :
    ((found.rows.flatten ++ found.row ++ found.named).flatMap Node.marks ++ node.marks).Perm
      (((found.add node).rows.flatten ++ (found.add node).row ++
        (found.add node).named).flatMap Node.marks) := by
  have later : ((found.rows.flatten ++ found.row ++ found.named).flatMap Node.marks ++
      node.marks).Perm
      ((found.rows.flatten ++ (found.row ++ [node]) ++ found.named).flatMap Node.marks) := by
    simp only [List.flatMap_append, List.flatMap_singleton, List.append_assoc]
    exact (List.perm_append_comm.append_left _).append_left _
  cases node with
  | named name expr place =>
      simp only [add, List.flatMap_append, List.flatMap_singleton, List.append_assoc]
      exact List.Perm.refl _
  | _ => exact later

theorem TokenKind.Encloses.isKept {opening closing : TokenKind}
    (kinds : opening.Encloses closing) :
    opening.isKept = false ∧ closing.isKept = false := by
  rcases kinds with pair | ⟨rfl, rfl⟩
  · cases opening <;> cases pair <;> exact ⟨rfl, rfl⟩
  · exact ⟨rfl, rfl⟩

theorem BinaryOp.isKept_of_ofKind? {kind : TokenKind} {op : BinaryOp}
    (writes : BinaryOp.ofKind? kind = some op) : kind.isKept = false := by
  cases kind <;> first | rfl | cases writes

theorem UnaryOp.isKept_of_ofKind? {kind : TokenKind} {op : UnaryOp}
    (writes : UnaryOp.ofKind? kind = some op) : kind.isKept = false := by
  cases kind <;> first | rfl | cases writes

theorem Covered.named {middle : List Token} {name colon : Token} {value : Node}
    (name_kind : name.kind = .text ∨ name.kind = .ident) (free : colon.kind.isKept = false)
    (covered : Covered all value.marks middle rest) :
    Covered all (Node.named name.value value ⟨.cover name.range value.range, .detached⟩).marks
      (name :: colon :: middle) rest := by
  rw [Node.marks_of_mark rfl, Node.parts, List.flatMap_singleton]
  have represents : Represents name
      (.named name.value value ⟨.cover name.range value.range, .detached⟩) :=
    ⟨name_kind, rfl, rfl⟩
  exact .trans (.token (.atom represents)) (covered.after free)

theorem Covered.field {target : Node} {dot name : Token}
    (covered : Covered all target.marks tokens (dot :: name :: rest)) (dot_kind : dot.kind = .dot)
    (name_kind : name.kind = .ident) (le : target.range.start ≤ name.range.stop) :
    Covered all (Node.field target name.value ⟨.cover target.range name.range, .detached⟩).marks
      tokens rest := by
  have represents : Represents name
      (.field target name.value ⟨.cover target.range name.range, .detached⟩) :=
    ⟨name_kind, rfl, ByteRange.stop_cover_of_le le⟩
  have free : dot.kind.isKept = false := by
    rw [dot_kind]
    rfl
  rw [Node.marks_of_mark rfl, Node.parts, List.flatMap_singleton]
  refine ((covered.before free).trans (.token (.atom represents))).perm ?_
  exact List.perm_append_singleton _ _

theorem Covered.attach {base : Node} {primes : Option Primes} {bottom top : Option Node}
    {place : Place} {afterBase afterPrimes : List Token}
    (base_covered : Covered all base.marks tokens afterBase)
    (marks : Marks primes afterBase afterPrimes)
    (scripts_covered : afterPrimes <:+ all →
      Covered all ((bottom.toList ++ top.toList).flatMap Node.marks) afterPrimes rest)
    (within : tokens <:+ all) :
    Covered all (Node.attach base bottom top primes place).marks tokens rest := by
  have afterBase_within := base_covered.suffix.trans within
  have primes_covered := marks.coveredBy afterBase_within
  have scripts := scripts_covered (primes_covered.suffix.trans afterBase_within)
  rw [Node.marks_attach]
  exact (base_covered.trans (primes_covered.trans scripts)).perm
    (List.perm_append_comm.append_left _)

theorem Covered.delimited {body : List Node} {opening closing : Token} {middle : List Token}
    {bodyPlace place : Place} (kinds : opening.kind.Encloses closing.kind)
    (covered : Covered all (body.flatMap Node.marks) middle (closing :: rest)) :
    Covered all (Node.delimited ⟨opening.value, ⟨opening.range, .detached⟩⟩ body bodyPlace
      ⟨closing.value, ⟨closing.range, .detached⟩⟩ place).marks (opening :: middle) rest := by
  have opening_shown : Covered all _ (opening :: middle) middle :=
    .token (.shown (.inl kinds.isKept.1))
  have closing_shown : Covered all _ (closing :: rest) rest :=
    .token (.shown (.inl kinds.isKept.2))
  rw [Node.marks_of_inner rfl]
  simpa [Node.parts, Delimiter.node] using opening_shown.trans (covered.trans closing_shown)

theorem Covered.mathCall {name opening closing : Token} {found : ArgumentRows}
    {middle : List Token} {argsPlace place : Place} (name_kind : name.kind = .ident)
    (opening_free : opening.kind.isKept = false) (closing_free : closing.kind.isKept = false)
    (rowless : found.hasRows = false → found.rows = [])
    (covered : Covered all ((found.rows.flatten ++ found.row ++ found.named).flatMap Node.marks)
      middle (closing :: rest)) :
    Covered all (Node.call (.mathIdent name.value ⟨name.range, .detached⟩) found.items
      argsPlace place).marks (name :: opening :: middle) rest := by
  have name_covered : Covered all _ (name :: opening :: middle) (opening :: middle) :=
    (Leaf.mathIdent name_kind).coveredBy
  rw [Node.marks_call, ArgumentRows.marks_items rowless]
  exact name_covered.trans (covered.between opening_free closing_free)

theorem Covered.call {callee : Node} {args blocks : List Node} {opening closing : Token}
    {middle afterArgs : List Token} {argsPlace place : Place}
    (callee_covered : Covered all callee.marks tokens (opening :: middle))
    (opening_free : opening.kind.isKept = false) (closing_free : closing.kind.isKept = false)
    (args_covered : middle <:+ all →
      Covered all (args.flatMap Node.marks) middle (closing :: afterArgs))
    (blocks_covered : afterArgs <:+ all →
      Covered all (blocks.flatMap Node.marks) afterArgs rest)
    (within : tokens <:+ all) :
    Covered all (Node.call callee (args ++ blocks) argsPlace place).marks tokens rest := by
  rw [Node.marks_call, List.flatMap_append]
  refine callee_covered.around opening_free (fun inside => ?_) within
  exact (args_covered inside).around closing_free blocks_covered inside

theorem Covered.two {node first second : Node} {mark : Token} {middle : List Token}
    (inner : (TreePart.node node).isMark = false)
    (parts : node.parts = [.node first, .node second])
    (first_covered : Covered all first.marks tokens (mark :: middle))
    (free : mark.kind.isKept = false)
    (second_covered : middle <:+ all → Covered all second.marks middle rest)
    (within : tokens <:+ all) : Covered all node.marks tokens rest := by
  rw [Node.marks_of_two inner parts]
  exact first_covered.around free second_covered within

theorem Covered.enclosed {node : Node} {items : List Node} {opening closing : Token}
    {middle : List Token} (inner : (TreePart.node node).isMark = false)
    (parts : node.parts = items.map .node) (opening_free : opening.kind.isKept = false)
    (closing_free : closing.kind.isKept = false)
    (covered : Covered all (items.flatMap Node.marks) middle (closing :: rest)) :
    Covered all node.marks (opening :: middle) rest := by
  rw [Node.marks_of_list inner parts]
  exact covered.between opening_free closing_free

theorem Covered.script {found : Scripts} {side : ScriptSide} {node : Node} {mark : Token}
    {middle : List Token}
    (before : Covered all ((found.bottom.toList ++ found.top.toList).flatMap Node.marks) tokens
      (mark :: middle))
    (kind : mark.kind = side.kind) (free : found.on side = none)
    (node_covered : middle <:+ all → Covered all node.marks middle rest)
    (within : tokens <:+ all) :
    Covered all (((found.put side node).bottom.toList ++
      (found.put side node).top.toList).flatMap Node.marks) tokens rest := by
  have mark_free : mark.kind.isKept = false := by
    rw [kind]
    cases side <;> rfl
  refine (before.around mark_free node_covered within).perm ?_
  cases side with
  | below =>
      simp only [Scripts.on] at free
      simp only [Scripts.put, free, Option.toList_none, Option.toList_some,
        List.nil_append, List.flatMap_append, List.flatMap_singleton]
      exact List.perm_append_comm
  | above =>
      simp only [Scripts.on] at free
      simp [Scripts.put, free]

theorem Written.coveredBy {writing : Writing} {tokens rest : List Token}
    (written : Written writing tokens rest)
    (ordered : all.Pairwise fun earlier later => earlier.range.stop ≤ later.range.start)
    (within : tokens <:+ all) : writing.CoveredBy all tokens rest := by
  have isKept {token : Token} {kind : TokenKind} (same : token.kind = kind)
      (free : kind.isKept = false) : token.kind.isKept = false := by
    rw [same, free]
  have after {token : Token} {tokens : List Token} (within : token :: tokens <:+ all) :
      tokens <:+ all := (List.suffix_cons token tokens).trans within
  -- On what is written. The parts of a tree need not come in the order of its tokens, as scripts
  -- and named arguments show, so the marks are compared up to their order.
  induction written with
  | leaf leaf => exact leaf.coveredBy
  | primes marks => exact marks.coveredBy within
  | attach base_written marks scripts_written proper base_ih scripts_ih =>
      exact .attach (base_ih within) marks scripts_ih within
  | frac num_written kind denom_written num_ih denom_ih =>
      exact .two rfl rfl (num_ih within) (isKept kind rfl) denom_ih within
  | root kind written ih =>
      rw [Writing.CoveredBy, Node.marks_of_one rfl rfl]
      exact (ih (after within)).after (isKept kind rfl)
  | delimited kinds written ih => exact .delimited kinds (ih (after within))
  | mathCall name_kind opening_kind written closing_kind ih =>
      obtain ⟨rowless, covered⟩ := ih (after (after within))
      exact .mathCall name_kind (isKept opening_kind rfl) (isKept closing_kind rfl) rowless covered
  | embedded kind written ends ih => exact (ih (after within)).after (isKept kind rfl)
  | single written ih | positional written ih | blockOperand written ih | operand written ih
  | item written ih => exact ih within
  | sequence written improper ih =>
      rw [Writing.CoveredBy, Node.marks_math]
      exact ih within
  | labelled named kind written ih =>
      have value_covered : Covered all _ _ _ := ih (after (after within))
      simp only [namesArgument, Bool.and_eq_true, Bool.or_eq_true, decide_eq_true_eq] at named
      exact value_covered.named named.1.1 (isKept kind rfl)
  | @parenthesized expr opening closing middle rest opening_kind closing_kind written ih =>
      have covered : Covered all ([expr].flatMap Node.marks) _ _ := ih (after within)
      exact .enclosed rfl rfl (isKept opening_kind rfl) (isKept closing_kind rfl) covered
  | array opening_kind closing_kind written ih | dict opening_kind closing_kind written ih =>
      exact .enclosed rfl rfl (isKept opening_kind rfl) (isKept closing_kind rfl)
        (ih (after within))
  | @emptyDict opening colon closing rest opening_kind colon_kind closing_kind =>
      have nothing : Covered all [] (colon :: closing :: rest) (closing :: rest) :=
        .skip (isKept colon_kind rfl)
      exact nothing.between (isKept opening_kind rfl) (isKept closing_kind rfl)
  | contentBlock opening_kind closing_kind written ih =>
      have covered : Covered all _ _ _ := ih (after within)
      rw [Writing.CoveredBy, Node.marks_of_one rfl rfl, Node.marks_math]
      exact covered.between (isKept opening_kind rfl) (isKept closing_kind rfl)
  | call callee_written opening_kind closing_kind attached args_written blocks_written contiguous
      callee_ih args_ih blocks_ih =>
      exact .call (callee_ih within) (isKept opening_kind rfl) (isKept closing_kind rfl) args_ih
        blocks_ih within
  | blockCall callee_written block_written attached callee_ih block_ih =>
      have callee_covered : Covered all _ _ _ := callee_ih within
      rw [Writing.CoveredBy, Node.marks_call, List.flatMap_singleton]
      exact callee_covered.trans (block_ih (callee_covered.suffix.trans within))
  | field written dot_kind name_kind ih =>
      have covered : Covered all _ _ _ := ih within
      exact covered.field dot_kind name_kind
        (written.start_le_name (ordered.sublist within.sublist))
  | binary lhs_written writes rhs_written lhs_ih rhs_ih =>
      exact .two rfl rfl (lhs_ih within) (BinaryOp.isKept_of_ofKind? writes) rhs_ih within
  | unary writes written ih =>
      rw [Writing.CoveredBy, Node.marks_of_one rfl rfl]
      exact (ih (after within)).after (UnaryOp.isKept_of_ofKind? writes)
  | spread kind written ih =>
      rw [Writing.CoveredBy, Node.marks_of_one rfl rfl]
      exact (ih (after within)).after (isKept kind rfl)
  | named name_kind colon_kind written ih =>
      have value_covered : Covered all _ _ _ := ih (after (after within))
      exact value_covered.named (.inr name_kind) (isKept colon_kind rfl)
  | keyed key_written kind value_written key_ih value_ih =>
      exact .two rfl rfl (key_ih within) (isKept kind rfl) value_ih within
  | none => exact .refl
  | more before written before_ih ih =>
      have before_covered : Covered all _ _ _ := before_ih within
      rw [Writing.CoveredBy, List.flatMap_append, List.flatMap_singleton]
      exact before_covered.trans (ih (before_covered.suffix.trans within))
  | comma before kind ih =>
      have covered : Covered all _ _ _ := ih within
      exact covered.before (isKept kind rfl)
  | noRows => exact ⟨fun _ => rfl, .refl⟩
  | @argument found node tokens middle rest before written before_ih ih =>
      obtain ⟨rowless, before_covered⟩ := before_ih within
      have node_covered : Covered all _ _ _ := ih (before_covered.suffix.trans within)
      refine ⟨?_, (before_covered.trans node_covered).perm (found.marks_add node)⟩
      cases node <;> exact rowless
  | rowComma before kind ih =>
      obtain ⟨rowless, covered⟩ := ih within
      exact ⟨rowless, covered.before (isKept kind rfl)⟩
  | endRow before kind ih =>
      obtain ⟨rowless, covered⟩ := ih within
      refine ⟨by simp [ArgumentRows.endRow], ?_⟩
      simpa [ArgumentRows.endRow] using covered.before (isKept kind rfl)
  | noScripts => exact .refl
  | script before kind free written before_ih ih =>
      exact Covered.script (before_ih within) kind free ih within

end EquationMap
