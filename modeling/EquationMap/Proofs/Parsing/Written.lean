import EquationMap.Syntax.Grammar

namespace EquationMap

/-! How formulas are written in tokens. The relation says which tokens make up a node and
where its parts lie among them; it does not say which of several readings of the same tokens
is taken. -/

open Grammar

/-- What a node is written as: mathematics, code, or one of the forms that occur only between
the parentheses of a call or of a group. -/
inductive Role where
  | math
  | block
  | operand
  | code
  | value
  | argument
  | item

/-- What a stretch of tokens is read as. -/
inductive Writing where
  | one (role : Role) (node : Node)
  | many (role : Role) (nodes : List Node)
  | rows (found : ArgumentRows)
  | scripts (found : Scripts)

def TokenKind.isPlain : TokenKind → Bool
  | ident | shorthand | string | root | prime | amp | linebreak | hash | lparen | lbracket
  | lbrace | hat | underscore | eof => false
  | _ => true

/-- Whether one kind of token opens a group that the other one closes. -/
def TokenKind.Encloses (opening closing : TokenKind) : Prop :=
  opening.closer? = some closing ∨ opening = .bar ∧ closing = .bar

inductive Leaf : Role → Token → Node → Prop
  | text {token : Token} (plain : token.kind.isPlain = true) :
      Leaf .math token (.text token.value ⟨token.range, .detached⟩)
  | mathIdent {token : Token} (kind : token.kind = .ident) :
      Leaf .math token (.mathIdent token.value ⟨token.range, .detached⟩)
  | shorthand {token : Token} (kind : token.kind = .shorthand) :
      Leaf .math token
        (.shorthand token.value (Token.symbolOf token.value) ⟨token.range, .detached⟩)
  | alignPoint {token : Token} (kind : token.kind = .amp) :
      Leaf .math token (.alignPoint ⟨token.range, .detached⟩)
  | linebreak {token : Token} (kind : token.kind = .linebreak) :
      Leaf .math token (.linebreak ⟨token.range, .detached⟩)
  | str {token : Token} (kind : token.kind = .string) :
      Leaf .math token (.str token.value ⟨token.range, .detached⟩)
  | codeStr {token : Token} (kind : token.kind = .string) :
      Leaf .operand token (.str token.value ⟨token.range, .detached⟩)
  | ident {token : Token} (kind : token.kind = .ident) :
      Leaf .operand token (.ident token.value ⟨token.range, .detached⟩)
  | int {token : Token} {value : Nat} (kind : token.kind = .int)
      (read : Decimal.readInteger token.value = .ok value) :
      Leaf .operand token (.int value ⟨token.range, .detached⟩)
  | float {token : Token} {value : Decimal.Numeral} (kind : token.kind = .float)
      (read : Decimal.readNumeral? token.value.toList = some value) :
      Leaf .operand token (.float value ⟨token.range, .detached⟩)
  | bool {token : Token} (kind : token.kind = .bool) :
      Leaf .operand token (.bool (token.value = "true") ⟨token.range, .detached⟩)
  | noneLit {token : Token} (kind : token.kind = .none) :
      Leaf .operand token (.noneLit ⟨token.range, .detached⟩)
  | autoLit {token : Token} (kind : token.kind = .auto) :
      Leaf .operand token (.autoLit ⟨token.range, .detached⟩)

/-- The prime marks between two places in a list of tokens, if there are any. -/
inductive Marks : Option Primes → List Token → List Token → Prop
  | absent {rest : List Token} : Marks none rest rest
  | first {mark : Token} {rest : List Token} (kind : mark.kind = .prime) :
      Marks (some ⟨1, ⟨mark.range, .detached⟩⟩) (mark :: rest) rest
  | more {primes : Primes} {tokens rest : List Token} {mark : Token}
      (before : Marks (some primes) tokens (mark :: rest)) (kind : mark.kind = .prime) :
      Marks (some ⟨primes.count + 1, ⟨.cover primes.place.range mark.range, .detached⟩⟩)
        tokens rest

def Grammar.Scripts.on (found : Scripts) : ScriptSide → Option Node
  | .below => found.bottom
  | .above => found.top

def attachedRange (base : Node) (primes : Option Primes) (found : Scripts) : ByteRange :=
  .cover base.range
    (found.last.getD ((primes.map fun primes => primes.place.range).getD base.range))

/-- The end of a list of nodes that starts at an offset. -/
def lastStop (start : Nat) (nodes : List Node) : Nat :=
  (nodes.getLast?.map fun node => node.range.stop).getD start

/-- The range of the last of some blocks, or the given one if there are none. -/
def lastRange (closing : ByteRange) (blocks : List Node) : ByteRange :=
  (blocks.getLast?.map Node.range).getD closing

/-- Whether the first of some tokens goes on with an operand of code that ends at an offset. -/
def Attaches (stop : Nat) : List Token → Prop
  | [] => False
  | token :: _ => token.kind = .dot ∨
      (token.kind = .lparen ∨ token.kind = .lbracket) ∧ stop = token.range.start

/-- Whether nodes follow each other from an offset on without a gap. -/
def Contiguous (start : Nat) : List Node → Prop
  | [] => True
  | node :: rest => start = node.range.start ∧ Contiguous node.range.stop rest

/-- Between two places in a list of tokens, given by the tokens that follow them, something is
written. -/
inductive Written : Writing → List Token → List Token → Prop
  | leaf {role : Role} {token : Token} {node : Node} {rest : List Token}
      (leaf : Leaf role token node) : Written (.one role node) (token :: rest) rest
  | primes {primes : Primes} {tokens rest : List Token}
      (marks : Marks (some primes) tokens rest) :
      Written (.one .math (.primes primes)) tokens rest
  | attach {base : Node} {primes : Option Primes} {found : Scripts}
      {tokens afterBase afterPrimes rest : List Token}
      (base_written : Written (.one .math base) tokens afterBase)
      (marks : Marks primes afterBase afterPrimes)
      (scripts_written : Written (.scripts found) afterPrimes rest)
      (proper : primes.isSome ∨ found.last.isSome) :
      Written (.one .math (.attach base found.bottom found.top primes
        ⟨attachedRange base primes found, .detached⟩)) tokens rest
  | frac {num denom : Node} {slash : Token} {tokens middle rest : List Token}
      (num_written : Written (.one .math num) tokens (slash :: middle))
      (kind : slash.kind = .slash) (denom_written : Written (.one .math denom) middle rest) :
      Written (.one .math (.frac num denom ⟨.cover num.range denom.range, .detached⟩))
        tokens rest
  | root {radicand : Node} {sign : Token} {middle rest : List Token}
      (kind : sign.kind = .root) (written : Written (.one .math radicand) middle rest) :
      Written (.one .math (.root (Token.degreeOf sign.value) radicand
        ⟨.cover sign.range radicand.range, .detached⟩)) (sign :: middle) rest
  | delimited {body : List Node} {opening closing : Token} {middle rest : List Token}
      (kinds : opening.kind.Encloses closing.kind)
      (written : Written (.many .math body) middle (closing :: rest)) :
      Written (.one .math (.delimited ⟨opening.value, ⟨opening.range, .detached⟩⟩ body
        ⟨.between opening.range.stop closing.range.start, .detached⟩
        ⟨closing.value, ⟨closing.range, .detached⟩⟩
        ⟨.cover opening.range closing.range, .detached⟩)) (opening :: middle) rest
  | mathCall {name opening closing : Token} {found : ArgumentRows} {middle rest : List Token}
      (name_kind : name.kind = .ident) (opening_kind : opening.kind = .lparen)
      (written : Written (.rows found) middle (closing :: rest))
      (closing_kind : closing.kind = .rparen) :
      Written (.one .math (.call (.mathIdent name.value ⟨name.range, .detached⟩) found.items
        ⟨.cover opening.range closing.range, .detached⟩
        ⟨.cover name.range closing.range, .detached⟩)) (name :: opening :: middle) rest
  | embedded {expr : Node} {hash : Token} {middle rest : List Token}
      (kind : hash.kind = .hash) (written : Written (.one .operand expr) middle rest)
      (ends : ¬Attaches expr.range.stop rest) : Written (.one .math expr) (hash :: middle) rest
  | single {expr : Node} {tokens rest : List Token}
      (written : Written (.one .math expr) tokens rest) :
      Written (.one .value expr) tokens rest
  | sequence {exprs : List Node} {head : Token} {tokens rest : List Token}
      (written : Written (.many .math exprs) (head :: tokens) rest)
      (improper : exprs.length ≠ 1) :
      Written (.one .value (.math exprs
        ⟨.between head.range.start (lastStop head.range.start exprs), .detached⟩))
        (head :: tokens) rest
  | positional {value : Node} {tokens rest : List Token}
      (written : Written (.one .value value) tokens rest) :
      Written (.one .argument value) tokens rest
  | labelled {name colon : Token} {value : Node} {middle rest : List Token}
      (named : namesArgument name = true) (kind : colon.kind = .colon)
      (written : Written (.one .value value) middle rest) :
      Written (.one .argument (.named name.value value
        ⟨.cover name.range value.range, .detached⟩)) (name :: colon :: middle) rest
  | parenthesized {expr : Node} {opening closing : Token} {middle rest : List Token}
      (opening_kind : opening.kind = .lparen) (closing_kind : closing.kind = .rparen)
      (written : Written (.many .item [expr]) middle (closing :: rest)) :
      Written (.one .operand (.parenthesized expr
        ⟨.cover opening.range closing.range, .detached⟩)) (opening :: middle) rest
  | array {items : List Node} {opening closing : Token} {middle rest : List Token}
      (opening_kind : opening.kind = .lparen) (closing_kind : closing.kind = .rparen)
      (written : Written (.many .item items) middle (closing :: rest)) :
      Written (.one .operand (.array items ⟨.cover opening.range closing.range, .detached⟩))
        (opening :: middle) rest
  | dict {items : List Node} {opening closing : Token} {middle rest : List Token}
      (opening_kind : opening.kind = .lparen) (closing_kind : closing.kind = .rparen)
      (written : Written (.many .item items) middle (closing :: rest)) :
      Written (.one .operand (.dict items ⟨.cover opening.range closing.range, .detached⟩))
        (opening :: middle) rest
  | emptyDict {opening colon closing : Token} {rest : List Token}
      (opening_kind : opening.kind = .lparen) (colon_kind : colon.kind = .colon)
      (closing_kind : closing.kind = .rparen) :
      Written (.one .operand (.dict [] ⟨.cover opening.range closing.range, .detached⟩))
        (opening :: colon :: closing :: rest) rest
  | contentBlock {body : List Node} {opening closing : Token} {middle rest : List Token}
      (opening_kind : opening.kind = .lbracket) (closing_kind : closing.kind = .rbracket)
      (written : Written (.many .math body) middle (closing :: rest)) :
      Written (.one .block (.contentBlock body
        ⟨.between opening.range.stop closing.range.start, .detached⟩
        ⟨.cover opening.range closing.range, .detached⟩)) (opening :: middle) rest
  | blockOperand {expr : Node} {tokens rest : List Token}
      (written : Written (.one .block expr) tokens rest) :
      Written (.one .operand expr) tokens rest
  | call {callee : Node} {args blocks : List Node} {opening closing : Token}
      {tokens middle afterArgs rest : List Token}
      (callee_written : Written (.one .operand callee) tokens (opening :: middle))
      (opening_kind : opening.kind = .lparen) (closing_kind : closing.kind = .rparen)
      (attached : callee.range.stop = opening.range.start)
      (args_written : Written (.many .item args) middle (closing :: afterArgs))
      (blocks_written : Written (.many .block blocks) afterArgs rest)
      (contiguous : Contiguous closing.range.stop blocks) :
      Written (.one .operand (.call callee (args ++ blocks)
        ⟨.cover opening.range (lastRange closing.range blocks), .detached⟩
        ⟨.cover callee.range (lastRange closing.range blocks), .detached⟩)) tokens rest
  | blockCall {callee block : Node} {tokens middle rest : List Token}
      (callee_written : Written (.one .operand callee) tokens middle)
      (block_written : Written (.one .block block) middle rest)
      (attached : callee.range.stop = block.range.start) :
      Written (.one .operand (.call callee [block] ⟨block.range, .detached⟩
        ⟨.cover callee.range block.range, .detached⟩)) tokens rest
  | field {target : Node} {dot name : Token} {tokens rest : List Token}
      (written : Written (.one .operand target) tokens (dot :: name :: rest))
      (dot_kind : dot.kind = .dot) (name_kind : name.kind = .ident) :
      Written (.one .operand (.field target name.value
        ⟨.cover target.range name.range, .detached⟩)) tokens rest
  | operand {expr : Node} {tokens rest : List Token}
      (written : Written (.one .operand expr) tokens rest) :
      Written (.one .code expr) tokens rest
  | binary {lhs rhs : Node} {op : BinaryOp} {mark : Token} {tokens middle rest : List Token}
      (lhs_written : Written (.one .code lhs) tokens (mark :: middle))
      (writes : BinaryOp.ofKind? mark.kind = some op)
      (rhs_written : Written (.one .code rhs) middle rest) :
      Written (.one .code (.binary lhs op rhs ⟨.cover lhs.range rhs.range, .detached⟩))
        tokens rest
  | unary {expr : Node} {op : UnaryOp} {mark : Token} {middle rest : List Token}
      (writes : UnaryOp.ofKind? mark.kind = some op)
      (written : Written (.one .code expr) middle rest) :
      Written (.one .code (.unary op expr ⟨.cover mark.range expr.range, .detached⟩))
        (mark :: middle) rest
  | item {expr : Node} {tokens rest : List Token}
      (written : Written (.one .code expr) tokens rest) :
      Written (.one .item expr) tokens rest
  | spread {expr : Node} {dots : Token} {middle rest : List Token}
      (kind : dots.kind = .dotDot) (written : Written (.one .code expr) middle rest) :
      Written (.one .item (.spread expr ⟨.cover dots.range expr.range, .detached⟩))
        (dots :: middle) rest
  | named {name colon : Token} {value : Node} {middle rest : List Token}
      (name_kind : name.kind = .ident) (colon_kind : colon.kind = .colon)
      (written : Written (.one .code value) middle rest) :
      Written (.one .item (.named name.value value
        ⟨.cover name.range value.range, .detached⟩)) (name :: colon :: middle) rest
  | keyed {key value : Node} {colon : Token} {tokens middle rest : List Token}
      (key_written : Written (.one .code key) tokens (colon :: middle))
      (kind : colon.kind = .colon) (value_written : Written (.one .code value) middle rest) :
      Written (.one .item (.keyed key value ⟨.cover key.range value.range, .detached⟩))
        tokens rest
  | none {role : Role} {rest : List Token} : Written (.many role []) rest rest
  | more {role : Role} {nodes : List Node} {node : Node} {tokens middle rest : List Token}
      (before : Written (.many role nodes) tokens middle)
      (written : Written (.one role node) middle rest) :
      Written (.many role (nodes ++ [node])) tokens rest
  | comma {nodes : List Node} {comma : Token} {tokens rest : List Token}
      (before : Written (.many .item nodes) tokens (comma :: rest))
      (kind : comma.kind = .comma) : Written (.many .item nodes) tokens rest
  | noRows {rest : List Token} : Written (.rows {}) rest rest
  | argument {found : ArgumentRows} {node : Node} {tokens middle rest : List Token}
      (before : Written (.rows found) tokens middle)
      (written : Written (.one .argument node) middle rest) :
      Written (.rows (found.add node)) tokens rest
  | rowComma {found : ArgumentRows} {comma : Token} {tokens rest : List Token}
      (before : Written (.rows found) tokens (comma :: rest))
      (kind : comma.kind = .comma) : Written (.rows found) tokens rest
  | endRow {found : ArgumentRows} {mark : Token} {tokens rest : List Token}
      (before : Written (.rows found) tokens (mark :: rest))
      (kind : mark.kind = .semicolon) : Written (.rows found.endRow) tokens rest
  | noScripts {rest : List Token} : Written (.scripts {}) rest rest
  | script {found : Scripts} {side : ScriptSide} {node : Node} {mark : Token}
      {tokens middle rest : List Token}
      (before : Written (.scripts found) tokens (mark :: middle))
      (kind : mark.kind = side.kind) (free : found.on side = .none)
      (written : Written (.one .math node) middle rest) :
      Written (.scripts (found.put side node)) tokens rest

theorem lastStop_cons (start : Nat) (first : Node) (rest : List Node) :
    lastStop start (first :: rest) = lastStop first.range.stop rest := by
  unfold lastStop
  rw [List.getLast?_cons]
  cases rest.getLast? <;> rfl

theorem stop_lastRange (closing : ByteRange) (blocks : List Node) :
    (lastRange closing blocks).stop = lastStop closing.stop blocks := by
  unfold lastRange lastStop
  cases blocks.getLast? <;> rfl

theorem contiguous_concat {start : Nat} {nodes : List Node} {node : Node} :
    Contiguous start (nodes ++ [node]) ↔
      Contiguous start nodes ∧ lastStop start nodes = node.range.start := by
  induction nodes generalizing start with
  | nil => simp [Contiguous, lastStop]
  | cons first rest ih =>
      rw [List.cons_append, Contiguous, Contiguous, ih, and_assoc, lastStop_cons]

theorem Marks.suffix {primes : Option Primes} {tokens rest : List Token}
    (marks : Marks primes tokens rest) : rest <:+ tokens := by
  induction marks with
  | absent => exact List.suffix_rfl
  | first => exact List.suffix_cons _ _
  | more before kind ih => exact (List.suffix_cons _ _).trans ih

theorem Written.suffix {writing : Writing} {tokens rest : List Token}
    (written : Written writing tokens rest) : rest <:+ tokens := by
  induction written with
  | leaf leaf => exact List.suffix_cons _ _
  | primes marks => exact marks.suffix
  | attach base marks scripts proper base_ih scripts_ih =>
      exact scripts_ih.trans (marks.suffix.trans base_ih)
  | none | noRows | noScripts => exact List.suffix_rfl
  | _ => grind [List.IsSuffix.trans, List.suffix_cons]

theorem Written.rest_of_empty {tokens rest : List Token}
    (written : Written (.many .math []) tokens rest) : tokens = rest := by
  generalize same : Writing.many .math [] = writing at written
  cases written with
  | none => rfl
  | more => simp at same
  | _ => cases same

theorem Written.of_singleton {node : Node} {tokens rest : List Token}
    (written : Written (.many .math [node]) tokens rest) :
    Written (.one .math node) tokens rest := by
  generalize same : Writing.many .math [node] = writing at written
  cases written with
  | @more role nodes =>
      rename_i before written
      obtain ⟨rfl, split⟩ := Writing.many.inj same
      cases nodes with
      | nil =>
          cases split
          rw [before.rest_of_empty]
          exact written
      | cons first others => simp at split
  | _ => cases same

theorem Written.token_of_ident {name : String} {place : Place} {tokens rest : List Token}
    (written : Written (.one .code (.ident name place)) tokens rest) :
    ∃ token, token.kind = .ident ∧ token.value = name ∧
      ⟨token.range, .detached⟩ = place ∧ tokens = token :: rest := by
  cases written with
  | leaf leaf => cases leaf
  | operand written =>
      cases written with
      | leaf leaf =>
          cases leaf with
          | ident kind => exact ⟨_, kind, rfl, rfl, rfl⟩
      | blockOperand written =>
          cases written with
          | leaf leaf => cases leaf

theorem Marks.rest_of_absent {tokens rest : List Token} (marks : Marks none tokens rest) :
    tokens = rest := by
  cases marks
  rfl

theorem Written.rest_of_no_scripts {found : Scripts} {tokens rest : List Token}
    (written : Written (.scripts found) tokens rest) (bare : found.last = .none) :
    tokens = rest := by
  cases written with
  | noScripts => rfl
  | @script found side node =>
      cases side <;> cases bare

end EquationMap
