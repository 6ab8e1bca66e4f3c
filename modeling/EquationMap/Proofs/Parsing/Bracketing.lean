import EquationMap.Proofs.Tree.Parts
import EquationMap.Proofs.Tree.Placed

namespace EquationMap

open Grammar

namespace TreePart

def isBlock : TreePart → Bool
  | .node (.contentBlock _ _ _) => true
  | _ => false

def IsBlockAt (range : ByteRange) (part : TreePart) : Prop :=
  part.isBlock = true ∧ part.range = range

def HasBlock (part : TreePart) (range : ByteRange) : Prop :=
  ∃ inner ∈ part.subtree, inner.IsBlockAt range

variable {range : ByteRange}

theorem hasBlock_iff (part : TreePart) :
    part.HasBlock range ↔ part.IsBlockAt range ∨ ∃ inner ∈ part.parts, inner.HasBlock range := by
  unfold HasBlock
  rw [part.subtree_eq]
  simp only [List.mem_cons, List.mem_flatMap, or_and_right, exists_or, exists_eq_left]
  refine or_congr_right ⟨?_, ?_⟩
  · rintro ⟨inner, ⟨direct, isPart, inside⟩, isBlock⟩
    exact ⟨direct, isPart, inner, inside, isBlock⟩
  · rintro ⟨direct, isPart, inner, inside, isBlock⟩
    exact ⟨inner, ⟨direct, isPart, inside⟩, isBlock⟩

end TreePart

def Node.HasBlock (node : Node) (range : ByteRange) : Prop :=
  (TreePart.node node).HasBlock range

def HasBlocks (nodes : List Node) (range : ByteRange) : Prop :=
  ∃ node ∈ nodes, node.HasBlock range

section

variable {nodes others : List Node} {node : Node} {range : ByteRange}

@[simp]
theorem hasBlocks_nil : HasBlocks [] range ↔ False := by
  simp [HasBlocks]

@[simp]
theorem hasBlocks_cons :
    HasBlocks (node :: nodes) range ↔ node.HasBlock range ∨ HasBlocks nodes range := by
  simp [HasBlocks]

@[simp]
theorem hasBlocks_append :
    HasBlocks (nodes ++ others) range ↔ HasBlocks nodes range ∨ HasBlocks others range := by
  simp [HasBlocks, or_and_right, exists_or]

theorem hasBlocks_parts :
    (∃ part ∈ nodes.map TreePart.node, part.HasBlock range) ↔ HasBlocks nodes range := by
  induction nodes with
  | nil => simp
  | cons first rest ih =>
      rw [List.map_cons, hasBlocks_cons, ← ih]
      simp only [List.mem_cons, or_and_right, exists_or, exists_eq_left]
      rfl

end

namespace Node

variable {node : Node} {range : ByteRange}

@[simp]
theorem hasBlock_node (node : Node) : (TreePart.node node).HasBlock range ↔ node.HasBlock range :=
  Iff.rfl

theorem hasBlock_of_parts (inner : (TreePart.node node).isBlock = false) :
    node.HasBlock range ↔ ∃ part ∈ node.parts, part.HasBlock range := by
  rw [← hasBlock_node, TreePart.hasBlock_iff]
  simp [TreePart.IsBlockAt, inner, TreePart.parts]

theorem hasBlock_of_none (inner : (TreePart.node node).isBlock = false)
    (parts : node.parts = []) : ¬node.HasBlock range := by
  rw [hasBlock_of_parts inner, parts]
  simp

theorem hasBlock_of_one {expr : Node} (inner : (TreePart.node node).isBlock = false)
    (parts : node.parts = [.node expr]) : node.HasBlock range ↔ expr.HasBlock range := by
  rw [hasBlock_of_parts inner, parts]
  simp

theorem hasBlock_of_two {first second : Node} (inner : (TreePart.node node).isBlock = false)
    (parts : node.parts = [.node first, .node second]) :
    node.HasBlock range ↔ first.HasBlock range ∨ second.HasBlock range := by
  rw [hasBlock_of_parts inner, parts]
  simp

theorem hasBlock_of_list {nodes : List Node} (inner : (TreePart.node node).isBlock = false)
    (parts : node.parts = nodes.map .node) : node.HasBlock range ↔ HasBlocks nodes range := by
  rw [hasBlock_of_parts inner, parts, hasBlocks_parts]

theorem hasBlock_math (exprs : List Node) (place : Place) :
    (math exprs place).HasBlock range ↔ HasBlocks exprs range :=
  hasBlock_of_list rfl rfl

theorem hasBlock_contentBlock (body : List Node) (bodyPlace place : Place) :
    (contentBlock body bodyPlace place).HasBlock range ↔
      place.range = range ∨ HasBlocks body range := by
  rw [← hasBlock_node, TreePart.hasBlock_iff]
  simp [TreePart.parts, parts, hasBlock_math, TreePart.IsBlockAt, TreePart.isBlock,
    TreePart.range, TreePart.place, Node.place]

theorem hasBlock_call (callee : Node) (args : List Node) (argsPlace place : Place) :
    (call callee args argsPlace place).HasBlock range ↔
      callee.HasBlock range ∨ HasBlocks args range := by
  have arguments : (TreePart.arguments args argsPlace).HasBlock range ↔ HasBlocks args range := by
    rw [TreePart.hasBlock_iff, TreePart.parts, hasBlocks_parts]
    simp [TreePart.IsBlockAt, TreePart.isBlock]
  rw [hasBlock_of_parts rfl]
  simp [parts, arguments]

theorem hasBlock_attach (base : Node) (bottom top : Option Node) (marks : Option Primes)
    (place : Place) :
    (attach base bottom top marks place).HasBlock range ↔
      base.HasBlock range ∨ HasBlocks (bottom.toList ++ top.toList) range := by
  have primes (run : Primes) : ¬(primes run).HasBlock range := hasBlock_of_none rfl rfl
  rw [hasBlock_of_parts rfl]
  cases bottom <;> cases top <;> cases marks <;> simp [parts, primes]

theorem hasBlock_delimited (opening : Delimiter) (body : List Node) (bodyPlace : Place)
    (closing : Delimiter) (place : Place) :
    (delimited opening body bodyPlace closing place).HasBlock range ↔ HasBlocks body range := by
  have delimiter (mark : Delimiter) : ¬mark.node.HasBlock range := hasBlock_of_none rfl rfl
  rw [hasBlock_of_parts rfl]
  simp [parts, hasBlock_math, delimiter]

end Node

/-- What a stretch of tokens is read as: a row of expressions of mathematics or of code, or an
operand of code that ends at an offset. -/
inductive Stretch where
  | row (inCode : Bool)
  | operand (stop : Nat)

/-- Between two places in a list of tokens, given by the tokens that follow them, content blocks
lie at some ranges. Square brackets of mathematics may enclose mathematics or stand alone. -/
inductive Bracketed : Stretch → (ByteRange → Prop) → List Token → List Token → Prop
  | nothing {inCode : Bool} {rest : List Token} :
      Bracketed (.row inCode) (fun _ => False) rest rest
  | append {inCode : Bool} {blocks others : ByteRange → Prop} {tokens middle rest : List Token}
      (left : Bracketed (.row inCode) blocks tokens middle)
      (right : Bracketed (.row inCode) others middle rest) :
      Bracketed (.row inCode) (fun range => blocks range ∨ others range) tokens rest
  | mark {token : Token} {rest : List Token} (notHash : token.kind ≠ .hash)
      (notOpening : token.kind ≠ .lbracket) :
      Bracketed (.row false) (fun _ => False) (token :: rest) rest
  | brackets {blocks : ByteRange → Prop} {opening closing : Token} {middle rest : List Token}
      (opening_kind : opening.kind = .lbracket) (closing_kind : closing.kind = .rbracket)
      (inside : Bracketed (.row false) blocks middle (closing :: rest)) :
      Bracketed (.row false) blocks (opening :: middle) rest
  | embedded {blocks : ByteRange → Prop} {hash : Token} {stop : Nat} {middle rest : List Token}
      (kind : hash.kind = .hash) (expr : Bracketed (.operand stop) blocks middle rest)
      (ends : ¬Attaches stop rest) : Bracketed (.row false) blocks (hash :: middle) rest
  | codeMark {token : Token} {rest : List Token} (notGroup : token.kind ≠ .lparen)
      (notBlock : token.kind ≠ .lbracket) (notClosing : token.kind ≠ .rparen) :
      Bracketed (.row true) (fun _ => False) (token :: rest) rest
  | expr {blocks : ByteRange → Prop} {stop : Nat} {tokens rest : List Token}
      (operand : Bracketed (.operand stop) blocks tokens rest) :
      Bracketed (.row true) blocks tokens rest
  | atom {token : Token} {rest : List Token} (notGroup : token.kind ≠ .lparen)
      (notBlock : token.kind ≠ .lbracket) (notClosing : token.kind ≠ .rparen) :
      Bracketed (.operand token.range.stop) (fun _ => False) (token :: rest) rest
  | group {blocks : ByteRange → Prop} {opening closing : Token} {middle rest : List Token}
      (opening_kind : opening.kind = .lparen) (closing_kind : closing.kind = .rparen)
      (inside : Bracketed (.row true) blocks middle (closing :: rest)) :
      Bracketed (.operand closing.range.stop) blocks (opening :: middle) rest
  | block {blocks : ByteRange → Prop} {opening closing : Token} {middle rest : List Token}
      (opening_kind : opening.kind = .lbracket) (closing_kind : closing.kind = .rbracket)
      (inside : Bracketed (.row false) blocks middle (closing :: rest)) :
      Bracketed (.operand closing.range.stop)
        (fun range => .cover opening.range closing.range = range ∨ blocks range)
        (opening :: middle) rest
  | attach {blocks others : ByteRange → Prop} {stop later : Nat} {opening : Token}
      {tokens middle rest : List Token}
      (operand : Bracketed (.operand stop) blocks tokens (opening :: middle))
      (opens : opening.kind = .lparen ∨ opening.kind = .lbracket)
      (adjacent : stop = opening.range.start)
      (attached : Bracketed (.operand later) others (opening :: middle) rest) :
      Bracketed (.operand later) (fun range => blocks range ∨ others range) tokens rest
  | field {blocks : ByteRange → Prop} {stop : Nat} {dot name : Token} {tokens rest : List Token}
      (operand : Bracketed (.operand stop) blocks tokens (dot :: name :: rest))
      (dot_kind : dot.kind = .dot) (name_kind : name.kind = .ident) :
      Bracketed (.operand name.range.stop) blocks tokens rest

namespace Bracketed

variable {stretch : Stretch} {blocks others : ByteRange → Prop} {tokens middle rest : List Token}
  {token : Token}

theorem suffix (bracketed : Bracketed stretch blocks tokens rest) : rest <:+ tokens := by
  induction bracketed with
  | nothing => exact List.suffix_rfl
  | append _ _ left_ih right_ih => exact right_ih.trans left_ih
  | mark | codeMark | atom => exact List.suffix_cons _ _
  | brackets _ _ _ ih | group _ _ _ ih | block _ _ _ ih =>
      exact ((List.suffix_cons _ _).trans ih).trans (List.suffix_cons _ _)
  | embedded _ _ _ ih => exact ih.trans (List.suffix_cons _ _)
  | expr _ ih => exact ih
  | attach _ _ _ _ operand_ih attached_ih => exact attached_ih.trans operand_ih
  | field _ _ _ ih =>
      exact ((List.suffix_cons _ _).trans (List.suffix_cons _ _)).trans ih

theorem congr (bracketed : Bracketed stretch blocks tokens rest)
    (same : ∀ range, others range ↔ blocks range) : Bracketed stretch others tokens rest := by
  have equal : others = blocks := funext fun range => propext (same range)
  rw [equal]
  exact bracketed

theorem after (notHash : token.kind ≠ .hash) (notOpening : token.kind ≠ .lbracket)
    (bracketed : Bracketed (.row false) blocks middle rest) :
    Bracketed (.row false) blocks (token :: middle) rest :=
  (append (mark notHash notOpening) bracketed).congr fun _ => (iff_of_eq (false_or _)).symm

theorem before (bracketed : Bracketed (.row false) blocks tokens (token :: rest))
    (notHash : token.kind ≠ .hash) (notOpening : token.kind ≠ .lbracket) :
    Bracketed (.row false) blocks tokens rest :=
  (append bracketed (mark notHash notOpening)).congr fun _ => (iff_of_eq (or_false _)).symm

theorem afterCode (notGroup : token.kind ≠ .lparen) (notBlock : token.kind ≠ .lbracket)
    (notClosing : token.kind ≠ .rparen) (bracketed : Bracketed (.row true) blocks middle rest) :
    Bracketed (.row true) blocks (token :: middle) rest :=
  (append (codeMark notGroup notBlock notClosing) bracketed).congr fun _ =>
    (iff_of_eq (false_or _)).symm

theorem beforeCode (bracketed : Bracketed (.row true) blocks tokens (token :: rest))
    (notGroup : token.kind ≠ .lparen) (notBlock : token.kind ≠ .lbracket)
    (notClosing : token.kind ≠ .rparen) : Bracketed (.row true) blocks tokens rest :=
  (append bracketed (codeMark notGroup notBlock notClosing)).congr fun _ =>
    (iff_of_eq (or_false _)).symm

end Bracketed

def Role.inCode : Role → Bool
  | .math | .value | .argument => false
  | .block | .operand | .code | .item => true

def Grammar.ArgumentRows.all (found : ArgumentRows) : List Node :=
  found.rows.flatten ++ found.row ++ found.named

/-- Whether the content blocks of what is written lie between two places. -/
def Writing.IsBracketed (tokens rest : List Token) : Writing → Prop
  | .one .operand node => Bracketed (.operand node.range.stop) node.HasBlock tokens rest
  | .one .block node =>
      (∃ opening middle, tokens = opening :: middle ∧ opening.kind = .lbracket ∧
        opening.range.start = node.range.start) ∧
      Bracketed (.operand node.range.stop) node.HasBlock tokens rest
  | .one role node => Bracketed (.row role.inCode) node.HasBlock tokens rest
  | .many .block nodes => rest <:+ tokens ∧ ∀ {start stop blocks},
      Bracketed (.operand stop) blocks start tokens → Contiguous stop nodes →
        Bracketed (.operand (lastStop stop nodes))
          (fun range => blocks range ∨ HasBlocks nodes range) start rest
  | .many role nodes => Bracketed (.row role.inCode) (HasBlocks nodes) tokens rest
  | .rows found => (found.hasRows = false → found.rows = []) ∧
      Bracketed (.row false) (HasBlocks found.all) tokens rest
  | .scripts found =>
      Bracketed (.row false) (HasBlocks (found.bottom.toList ++ found.top.toList)) tokens rest

variable {tokens rest : List Token}

theorem Grammar.ArgumentRows.hasBlocks_items {found : ArgumentRows} {range : ByteRange}
    (rowless : found.hasRows = false → found.rows = []) :
    HasBlocks found.items range ↔ HasBlocks found.all range := by
  have arrays (rows : List (List Node)) :
      HasBlocks (rows.filterMap arrayOf?) range ↔ HasBlocks rows.flatten range := by
    induction rows with
    | nil => rfl
    | cons row rest ih =>
        rw [List.filterMap_cons, List.flatten_cons, hasBlocks_append, ← ih]
        cases row with
        | nil => simp [arrayOf?]
        | cons first others =>
            simp only [arrayOf?]
            rw [hasBlocks_cons, Node.hasBlock_of_list rfl rfl]
  rw [items, all]
  split
  · rw [hasBlocks_append, arrays]
    simp [or_assoc]
  · rename_i single
    rw [rowless (Bool.eq_false_iff.mpr single)]
    rfl

theorem Grammar.ArgumentRows.hasBlocks_add (found : ArgumentRows) (node : Node)
    (range : ByteRange) :
    HasBlocks (found.add node).all range ↔ HasBlocks found.all range ∨ node.HasBlock range := by
  unfold add all
  split <;> simp only [hasBlocks_append, hasBlocks_cons, hasBlocks_nil, or_false, or_assoc]
  rw [or_comm (b := HasBlocks found.named range)]

theorem Grammar.Scripts.hasBlocks_put {found : Scripts} {side : ScriptSide} (node : Node)
    (free : found.on side = none) (range : ByteRange) :
    HasBlocks ((found.put side node).bottom.toList ++ (found.put side node).top.toList) range ↔
      HasBlocks (found.bottom.toList ++ found.top.toList) range ∨ node.HasBlock range := by
  cases side with
  | below =>
      simp only [on] at free
      simp [put, free, or_comm]
  | above =>
      simp only [on] at free
      simp [put, free]

theorem Leaf.isBracketed {role : Role} {token : Token} {node : Node}
    (leaf : Leaf role token node) : (Writing.one role node).IsBracketed (token :: rest) rest := by
  have mark {node : Node} (inner : ∀ range, ¬node.HasBlock range) (notHash : token.kind ≠ .hash)
      (notOpening : token.kind ≠ .lbracket) :
      Bracketed (.row false) node.HasBlock (token :: rest) rest :=
    (Bracketed.mark notHash notOpening).congr fun range => iff_of_false (inner range) id
  have atom {node : Node} {kind : TokenKind} (inner : ∀ range, ¬node.HasBlock range)
      (same : token.kind = kind) (notGroup : kind ≠ .lparen) (notBlock : kind ≠ .lbracket)
      (notClosing : kind ≠ .rparen) :
      Bracketed (.operand token.range.stop) node.HasBlock (token :: rest) rest := by
    subst same
    exact (Bracketed.atom notGroup notBlock notClosing).congr fun range =>
      iff_of_false (inner range) id
  cases leaf with
  | text plain =>
      refine mark (fun _ => Node.hasBlock_of_none rfl rfl) ?_ ?_ <;>
        intro kind <;> rw [kind] at plain <;> cases plain
  | mathIdent kind | shorthand kind | alignPoint kind | linebreak kind | str kind =>
      exact mark (fun _ => Node.hasBlock_of_none rfl rfl) (by simp [kind]) (by simp [kind])
  | codeStr kind | ident kind | int kind | float kind | bool kind | noneLit kind
  | autoLit kind =>
      exact atom (fun _ => Node.hasBlock_of_none rfl rfl) kind (by simp) (by simp) (by simp)

theorem TokenKind.Encloses.brackets {opening closing : TokenKind}
    (kinds : opening.Encloses closing) :
    opening = .lbracket ∧ closing = .rbracket ∨
      (opening ≠ .hash ∧ opening ≠ .lbracket) ∧ closing ≠ .hash ∧ closing ≠ .lbracket := by
  rcases kinds with pair | ⟨rfl, rfl⟩
  · cases opening <;> cases pair <;> simp
  · simp

theorem Marks.bracketed {primes : Option Primes} (marks : Marks primes tokens rest) :
    Bracketed (.row false) (fun _ => False) tokens rest := by
  induction marks with
  | absent => exact .nothing
  | first kind => exact .mark (by simp [kind]) (by simp [kind])
  | more before kind ih => exact ih.before (by simp [kind]) (by simp [kind])

theorem BinaryOp.kind_of_ofKind? {kind : TokenKind} {op : BinaryOp}
    (writes : BinaryOp.ofKind? kind = some op) :
    kind ≠ .lparen ∧ kind ≠ .lbracket ∧ kind ≠ .rparen := by
  cases kind <;> cases writes <;> simp

theorem UnaryOp.kind_of_ofKind? {kind : TokenKind} {op : UnaryOp}
    (writes : UnaryOp.ofKind? kind = some op) :
    kind ≠ .lparen ∧ kind ≠ .lbracket ∧ kind ≠ .rparen := by
  cases kind <;> cases writes <;> simp

theorem Contiguous.le_lastStop {start : Nat} {nodes : List Node}
    (contiguous : Contiguous start nodes) : start ≤ lastStop start nodes := by
  induction nodes generalizing start with
  | nil => exact Nat.le_refl _
  | cons first rest ih =>
      obtain ⟨rfl, later⟩ := contiguous
      rw [lastStop_cons]
      exact Nat.le_trans first.range.ordered (ih later)

/-! What each form of expression is bracketed in, if its parts are. -/

namespace Bracketed

variable {node callee value : Node} {items args blocks : List Node} {place : Place}
  {opening closing name colon : Token} {tokens middle afterArgs rest : List Token}

theorem attachment {base : Node} {primes : Option Primes} {found : Scripts}
    {afterBase afterPrimes : List Token}
    (base_bracketed : Bracketed (.row false) base.HasBlock tokens afterBase)
    (marks : Marks primes afterBase afterPrimes)
    (scripts : Bracketed (.row false) (HasBlocks (found.bottom.toList ++ found.top.toList))
      afterPrimes rest) :
    Bracketed (.row false) (Node.attach base found.bottom found.top primes place).HasBlock tokens
      rest := by
  refine (base_bracketed.append (marks.bracketed.append scripts)).congr fun range => ?_
  rw [Node.hasBlock_attach, false_or]

theorem delimited {first last : Delimiter} {bodyPlace : Place}
    (kinds : opening.kind.Encloses closing.kind)
    (inside : Bracketed (.row false) (HasBlocks items) middle (closing :: rest)) :
    Bracketed (.row false) (Node.delimited first items bodyPlace last place).HasBlock
      (opening :: middle) rest := by
  refine Bracketed.congr ?_ fun range => Node.hasBlock_delimited _ _ _ _ _
  rcases kinds.brackets with ⟨opens, closes⟩ | ⟨⟨notHash, notOpening⟩, endsNoHash, endsNoBlock⟩
  · exact .brackets opens closes inside
  · exact (inside.before endsNoHash endsNoBlock).after notHash notOpening

theorem mathCall {found : ArgumentRows} {argsPlace : Place} (name_kind : name.kind = .ident)
    (opening_kind : opening.kind = .lparen) (closing_kind : closing.kind = .rparen)
    (rowless : found.hasRows = false → found.rows = [])
    (inside : Bracketed (.row false) (HasBlocks found.all) middle (closing :: rest)) :
    Bracketed (.row false)
      (Node.call (.mathIdent name.value ⟨name.range, .detached⟩) found.items argsPlace
        place).HasBlock (name :: opening :: middle) rest := by
  have rows := inside.before (by simp [closing_kind]) (by simp [closing_kind])
  have args : Bracketed (.row false) _ (opening :: middle) rest :=
    rows.after (by simp [opening_kind]) (by simp [opening_kind])
  refine (args.after (by simp [name_kind]) (by simp [name_kind])).congr fun range => ?_
  rw [Node.hasBlock_call, found.hasBlocks_items rowless,
    or_iff_right (Node.hasBlock_of_none rfl rfl)]

theorem labelled (named : namesArgument name = true) (kind : colon.kind = .colon)
    (inside : Bracketed (.row false) value.HasBlock middle rest) :
    Bracketed (.row false) (Node.named name.value value place).HasBlock
      (name :: colon :: middle) rest := by
  have name_kind : name.kind = .text ∨ name.kind = .ident := by
    simp only [namesArgument, Bool.and_eq_true, Bool.or_eq_true, decide_eq_true_eq] at named
    exact named.1.1
  have marked : Bracketed (.row false) _ (colon :: middle) rest :=
    inside.after (by simp [kind]) (by simp [kind])
  refine (marked.after ?_ ?_).congr fun range => Node.hasBlock_of_one rfl rfl
  · rcases name_kind with isText | isIdent <;> simp [*]
  · rcases name_kind with isText | isIdent <;> simp [*]

theorem named (name_kind : name.kind = .ident) (colon_kind : colon.kind = .colon)
    (inside : Bracketed (.row true) value.HasBlock middle rest) :
    Bracketed (.row true) (Node.named name.value value place).HasBlock (name :: colon :: middle)
      rest := by
  have marked : Bracketed (.row true) _ (colon :: middle) rest :=
    inside.afterCode (by simp [colon_kind]) (by simp [colon_kind]) (by simp [colon_kind])
  exact (marked.afterCode (by simp [name_kind]) (by simp [name_kind])
    (by simp [name_kind])).congr fun range => Node.hasBlock_of_one rfl rfl

theorem two {first second : Node} {mark : Token} (inner : (TreePart.node node).isBlock = false)
    (parts : node.parts = [.node first, .node second])
    (first_bracketed : Bracketed (.row false) first.HasBlock tokens (mark :: middle))
    (notHash : mark.kind ≠ .hash) (notOpening : mark.kind ≠ .lbracket)
    (second_bracketed : middle <:+ tokens → Bracketed (.row false) second.HasBlock middle rest) :
    Bracketed (.row false) node.HasBlock tokens rest := by
  have before := first_bracketed.before notHash notOpening
  exact (before.append (second_bracketed before.suffix)).congr fun _ =>
    Node.hasBlock_of_two inner parts

theorem twoInCode {first second : Node} {mark : Token}
    (inner : (TreePart.node node).isBlock = false)
    (parts : node.parts = [.node first, .node second])
    (first_bracketed : Bracketed (.row true) first.HasBlock tokens (mark :: middle))
    (mark_kind : mark.kind ≠ .lparen ∧ mark.kind ≠ .lbracket ∧ mark.kind ≠ .rparen)
    (second_bracketed : middle <:+ tokens → Bracketed (.row true) second.HasBlock middle rest) :
    Bracketed (.row true) node.HasBlock tokens rest := by
  have before := first_bracketed.beforeCode mark_kind.1 mark_kind.2.1 mark_kind.2.2
  exact (before.append (second_bracketed before.suffix)).congr fun _ =>
    Node.hasBlock_of_two inner parts

theorem oneInCode {expr : Node} {mark : Token} (inner : (TreePart.node node).isBlock = false)
    (parts : node.parts = [.node expr])
    (mark_kind : mark.kind ≠ .lparen ∧ mark.kind ≠ .lbracket ∧ mark.kind ≠ .rparen)
    (bracketed : Bracketed (.row true) expr.HasBlock middle rest) :
    Bracketed (.row true) node.HasBlock (mark :: middle) rest :=
  (bracketed.afterCode mark_kind.1 mark_kind.2.1 mark_kind.2.2).congr fun _ =>
    Node.hasBlock_of_one inner parts

theorem codeGroup (opening_kind : opening.kind = .lparen) (closing_kind : closing.kind = .rparen)
    (between : opening.range.stop ≤ closing.range.start)
    (inside : Bracketed (.row true) (HasBlocks items) middle (closing :: rest))
    (range_eq : node.range = .cover opening.range closing.range)
    (same : ∀ range, node.HasBlock range ↔ HasBlocks items range) :
    Bracketed (.operand node.range.stop) node.HasBlock (opening :: middle) rest := by
  rw [range_eq, ByteRange.stop_cover_of_before between]
  exact (Bracketed.group opening_kind closing_kind inside).congr same

theorem contentBlock {bodyPlace : Place} (opening_kind : opening.kind = .lbracket)
    (closing_kind : closing.kind = .rbracket)
    (between : opening.range.stop ≤ closing.range.start)
    (inside : Bracketed (.row false) (HasBlocks items) middle (closing :: rest)) :
    Bracketed (.operand (ByteRange.cover opening.range closing.range).stop)
      (Node.contentBlock items bodyPlace ⟨.cover opening.range closing.range, .detached⟩).HasBlock
      (opening :: middle) rest := by
  rw [ByteRange.stop_cover_of_before between]
  exact (Bracketed.block opening_kind closing_kind inside).congr fun range =>
    Node.hasBlock_contentBlock _ _ _

theorem stop_of_call {range : ByteRange} (attached : range.stop = opening.range.start)
    (between : opening.range.stop ≤ closing.range.start)
    (contiguous : Contiguous closing.range.stop blocks) :
    (ByteRange.cover range (lastRange closing.range blocks)).stop =
      lastStop closing.range.stop blocks := by
  have ordered := range.ordered
  have opening_ordered := opening.range.ordered
  have closing_ordered := closing.range.ordered
  have blocks_after := contiguous.le_lastStop
  have last_stop := stop_lastRange closing.range blocks
  rw [ByteRange.stop_cover_of_le (by omega), last_stop]

theorem call {argsPlace : Place}
    (callee_bracketed :
      Bracketed (.operand callee.range.stop) callee.HasBlock tokens (opening :: middle))
    (opening_kind : opening.kind = .lparen) (closing_kind : closing.kind = .rparen)
    (attached : callee.range.stop = opening.range.start)
    (between : opening.range.stop ≤ closing.range.start)
    (args_bracketed : Bracketed (.row true) (HasBlocks args) middle (closing :: afterArgs))
    (contiguous : Contiguous closing.range.stop blocks)
    (followed : (Writing.many .block blocks).IsBracketed afterArgs rest) :
    Bracketed (.operand (ByteRange.cover callee.range (lastRange closing.range blocks)).stop)
      (Node.call callee (args ++ blocks) argsPlace place).HasBlock tokens rest := by
  have called := callee_bracketed.attach (.inl opening_kind) attached
    (.group opening_kind closing_kind args_bracketed)
  have whole := followed.2 called contiguous
  rw [stop_of_call attached between contiguous]
  refine whole.congr fun range => ?_
  rw [Node.hasBlock_call, hasBlocks_append, or_assoc]

theorem blockCall {block : Node} {argsPlace : Place}
    (callee_bracketed : Bracketed (.operand callee.range.stop) callee.HasBlock tokens middle)
    (attached : callee.range.stop = block.range.start)
    (one : (Writing.one .block block).IsBracketed middle rest) :
    Bracketed (.operand (ByteRange.cover callee.range block.range).stop)
      (Node.call callee [block] argsPlace place).HasBlock tokens rest := by
  obtain ⟨⟨opening, after, rfl, kind, start⟩, bracketed⟩ := one
  rw [ByteRange.stop_cover_of_before (Nat.le_of_eq attached)]
  refine (callee_bracketed.attach (.inr kind) (attached.trans start.symm) bracketed).congr
    fun range => ?_
  rw [Node.hasBlock_call, hasBlocks_cons]
  simp

theorem moreBlocks (others : (Writing.many .block blocks).IsBracketed tokens middle)
    (one : (Writing.one .block node).IsBracketed middle rest) :
    (Writing.many .block (blocks ++ [node])).IsBracketed tokens rest := by
  obtain ⟨suffix, chain⟩ := others
  obtain ⟨⟨opening, after, rfl, kind, start⟩, bracketed⟩ := one
  refine ⟨bracketed.suffix.trans suffix, fun operand contiguous => ?_⟩
  obtain ⟨earlier, adjacent⟩ := contiguous_concat.mp contiguous
  rw [lastStop_concat]
  refine ((chain operand earlier).attach (.inr kind) (adjacent.trans start.symm) bracketed).congr
    fun range => ?_
  simp [or_assoc]

theorem more {inCode : Bool} (row : Bracketed (.row inCode) (HasBlocks items) tokens middle)
    (one : Bracketed (.row inCode) node.HasBlock middle rest) :
    Bracketed (.row inCode) (HasBlocks (items ++ [node])) tokens rest := by
  refine (row.append one).congr fun range => ?_
  simp

theorem script {found : Scripts} {side : ScriptSide} {mark : Token}
    (before : Bracketed (.row false) (HasBlocks (found.bottom.toList ++ found.top.toList)) tokens
      (mark :: middle))
    (kind : mark.kind = side.kind) (free : found.on side = .none)
    (one : Bracketed (.row false) node.HasBlock middle rest) :
    (Writing.scripts (found.put side node)).IsBracketed tokens rest := by
  have mark_kind : mark.kind ≠ .hash ∧ mark.kind ≠ .lbracket := by
    rw [kind]
    cases side <;> simp [ScriptSide.kind]
  exact ((before.before mark_kind.1 mark_kind.2).append one).congr
    (Scripts.hasBlocks_put node free)

end Bracketed

theorem Written.isBracketed {writing : Writing} {tokens rest all : List Token}
    (written : Written writing tokens rest)
    (ordered : all.Pairwise fun earlier later => earlier.range.stop ≤ later.range.start)
    (within : tokens <:+ all) : writing.IsBracketed tokens rest := by
  have apart {opening closing : Token} {middle rest : List Token}
      (within : opening :: middle <:+ all) (inside : closing :: rest <:+ middle) :
      opening.range.stop ≤ closing.range.start :=
    List.rel_of_pairwise_cons (ordered.sublist within.sublist)
      (inside.subset List.mem_cons_self)
  have after {token : Token} {tokens : List Token} (within : token :: tokens <:+ all) :
      tokens <:+ all := (List.suffix_cons token tokens).trans within
  -- On what is written. Attached blocks come after their operand, so what is said of a list of
  -- them is said about every operand that ends where they begin.
  induction written with
  | leaf leaf => exact leaf.isBracketed
  | primes marks =>
      exact marks.bracketed.congr fun range => iff_of_false (Node.hasBlock_of_none rfl rfl) id
  | attach base_written marks scripts_written proper base_ih scripts_ih =>
      have afterBase := base_written.suffix.trans within
      exact .attachment (base_ih within) marks (scripts_ih (marks.suffix.trans afterBase))
  | frac num_written kind denom_written num_ih denom_ih =>
      exact .two rfl rfl (num_ih within) (by simp [kind]) (by simp [kind])
        fun inside => denom_ih (inside.trans within)
  | root kind written ih =>
      exact (Bracketed.after (by simp [kind]) (by simp [kind]) (ih (after within))).congr
        fun range => Node.hasBlock_of_one rfl rfl
  | delimited kinds written ih => exact .delimited kinds (ih (after within))
  | mathCall name_kind opening_kind written closing_kind ih =>
      obtain ⟨rowless, bracketed⟩ := ih (after (after within))
      exact .mathCall name_kind opening_kind closing_kind rowless bracketed
  | embedded kind written ends ih => exact .embedded kind (ih (after within)) ends
  | single written ih | positional written ih | item written ih => exact ih within
  | sequence written improper ih =>
      exact Bracketed.congr (ih within) fun range => Node.hasBlock_math _ _
  | labelled named kind written ih => exact .labelled named kind (ih (after (after within)))
  | parenthesized opening_kind closing_kind written ih
  | array opening_kind closing_kind written ih | dict opening_kind closing_kind written ih =>
      exact .codeGroup opening_kind closing_kind (apart within written.suffix)
        (ih (after within)) rfl fun _ => Node.hasBlock_of_list rfl rfl
  | @emptyDict opening colon closing rest opening_kind colon_kind closing_kind =>
      have nothing : Bracketed (.row true) (HasBlocks []) (colon :: closing :: rest)
          (closing :: rest) := by
        refine (Bracketed.codeMark ?_ ?_ ?_).congr fun range => hasBlocks_nil <;>
          simp [colon_kind]
      exact .codeGroup opening_kind closing_kind (apart within (List.suffix_cons _ _)) nothing rfl
        fun _ => Node.hasBlock_of_list rfl rfl
  | @contentBlock body opening closing middle rest opening_kind closing_kind written ih =>
      exact ⟨⟨opening, middle, rfl, opening_kind, rfl⟩, .contentBlock opening_kind closing_kind
        (apart within written.suffix) (ih (after within))⟩
  | blockOperand written ih => exact (ih within).2
  | operand written ih => exact .expr (ih within)
  | call callee_written opening_kind closing_kind attached args_written blocks_written contiguous
      callee_ih args_ih blocks_ih =>
      have opening_within := callee_written.suffix.trans within
      have args_within := after opening_within
      exact .call (callee_ih within) opening_kind closing_kind attached
        (apart opening_within args_written.suffix) (args_ih args_within) contiguous
        (blocks_ih (after (args_written.suffix.trans args_within)))
  | blockCall callee_written block_written attached callee_ih block_ih =>
      exact .blockCall (callee_ih within) attached
        (block_ih (callee_written.suffix.trans within))
  | @field target dot name tokens rest written dot_kind name_kind ih =>
      have bracketed : Bracketed (.operand _) _ _ _ := ih within
      -- Where the target starts is not part of what is shown here, only the order of the tokens.
      have le := written.start_le_name (ordered.sublist within.sublist)
      change Bracketed (.operand (ByteRange.cover target.range name.range).stop) _ _ _
      rw [ByteRange.stop_cover_of_le le]
      exact (bracketed.field dot_kind name_kind).congr fun range =>
        Node.hasBlock_of_one rfl rfl
  | binary lhs_written writes rhs_written lhs_ih rhs_ih =>
      exact .twoInCode rfl rfl (lhs_ih within) (BinaryOp.kind_of_ofKind? writes)
        fun inside => rhs_ih (inside.trans within)
  | unary writes written ih =>
      exact .oneInCode rfl rfl (UnaryOp.kind_of_ofKind? writes) (ih (after within))
  | spread kind written ih =>
      exact .oneInCode rfl rfl (by simp [kind]) (ih (after within))
  | named name_kind colon_kind written ih =>
      exact .named name_kind colon_kind (ih (after (after within)))
  | keyed key_written kind value_written key_ih value_ih =>
      exact .twoInCode rfl rfl (key_ih within) (by simp [kind])
        fun inside => value_ih (inside.trans within)
  | none =>
      rename_i role rest
      have nothing {inCode : Bool} : Bracketed (.row inCode) (HasBlocks []) rest rest :=
        Bracketed.nothing.congr fun range => hasBlocks_nil
      cases role with
      | block =>
          refine ⟨List.suffix_rfl, fun operand contiguous => operand.congr fun range => ?_⟩
          rw [hasBlocks_nil, or_false]
      | _ => exact nothing
  | @more role nodes node tokens middle rest before written before_ih ih =>
      have inside := before.suffix.trans within
      cases role with
      | block => exact Bracketed.moreBlocks (before_ih within) (ih inside)
      | operand => exact .more (before_ih within) (.expr (ih inside))
      | _ => exact .more (before_ih within) (ih inside)
  | comma before kind ih =>
      exact Bracketed.beforeCode (ih within) (by simp [kind]) (by simp [kind]) (by simp [kind])
  | noRows => exact ⟨fun _ => rfl, Bracketed.nothing.congr fun range => hasBlocks_nil⟩
  | @argument found node tokens middle rest before written before_ih ih =>
      obtain ⟨rowless, before_bracketed⟩ := before_ih within
      have bracketed : Bracketed (.row false) _ _ _ := ih (before.suffix.trans within)
      refine ⟨?_, (before_bracketed.append bracketed).congr (found.hasBlocks_add node)⟩
      cases node <;> exact rowless
  | rowComma before kind ih =>
      obtain ⟨rowless, bracketed⟩ := ih within
      exact ⟨rowless, bracketed.before (by simp [kind]) (by simp [kind])⟩
  | endRow before kind ih =>
      obtain ⟨rowless, bracketed⟩ := ih within
      refine ⟨by simp [ArgumentRows.endRow], ?_⟩
      refine (bracketed.before (by simp [kind]) (by simp [kind])).congr fun range => ?_
      simp [ArgumentRows.endRow, ArgumentRows.all]
  | noScripts => exact Bracketed.nothing.congr fun range => hasBlocks_nil
  | script before kind free written before_ih ih =>
      exact Bracketed.script (before_ih within) kind free
        (ih (after (before.suffix.trans within)))

end EquationMap
