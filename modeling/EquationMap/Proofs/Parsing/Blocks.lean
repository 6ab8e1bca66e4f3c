import EquationMap.Proofs.Lexing.Places
import EquationMap.Proofs.Parsing.Bracketing
import EquationMap.Proofs.Parsing.Soundness
import EquationMap.Proofs.Tree.Runs

namespace EquationMap

/-! Content blocks end where the lexer ends them if their square brackets are balanced, and only
then. The lexer counts square brackets; the grammar matches all brackets, and a closing one that
it cannot match is text. -/

open Lexer

def surplus (tokens : List Token) : Int :=
  (tokens.countP fun token => token.kind = .rbracket) -
    (tokens.countP fun token => token.kind = .lbracket : Nat)

section

variable {token : Token} {tokens rest : List Token}

theorem surplus_append (tokens rest : List Token) :
    surplus (tokens ++ rest) = surplus tokens + surplus rest := by
  simp only [surplus, List.countP_append]
  omega

theorem surplus_opening (kind : token.kind = .lbracket) :
    surplus (token :: rest) = surplus rest - 1 := by
  simp only [surplus, List.countP_cons, kind]
  simp
  omega

theorem surplus_closing (kind : token.kind = .rbracket) :
    surplus (token :: rest) = surplus rest + 1 := by
  simp only [surplus, List.countP_cons, kind]
  simp
  omega

theorem surplus_other (notOpening : token.kind ≠ .lbracket) (notClosing : token.kind ≠ .rbracket) :
    surplus (token :: rest) = surplus rest := by
  simp [surplus, notOpening, notClosing]

theorem surplus_le_cons (notOpening : token.kind ≠ .lbracket) :
    surplus rest ≤ surplus (token :: rest) := by
  by_cases closing : token.kind = .rbracket
  · rw [surplus_closing closing]
    omega
  · exact Int.le_of_eq (surplus_other notOpening closing).symm

theorem Bracketed.surplus_le {stretch : Stretch} {blocks : ByteRange → Prop}
    (bracketed : Bracketed stretch blocks tokens rest) : surplus rest ≤ surplus tokens := by
  induction bracketed with
  | nothing => exact Int.le_refl _
  | append _ _ left_ih right_ih => exact Int.le_trans right_ih left_ih
  | mark _ notOpening => exact surplus_le_cons notOpening
  | codeMark _ notBlock _ | atom _ notBlock _ => exact surplus_le_cons notBlock
  | brackets opening_kind closing_kind _ ih | block opening_kind closing_kind _ ih =>
      rw [surplus_closing closing_kind] at ih
      rw [surplus_opening opening_kind]
      omega
  | embedded kind _ _ ih =>
      rw [surplus_other (by simp [kind]) (by simp [kind])]
      exact ih
  | expr _ ih => exact ih
  | group opening_kind closing_kind _ ih =>
      rw [surplus_other (by simp [closing_kind]) (by simp [closing_kind])] at ih
      rw [surplus_other (by simp [opening_kind]) (by simp [opening_kind])]
      exact ih
  | attach _ _ _ _ operand_ih attached_ih => exact Int.le_trans attached_ih operand_ih
  | field _ dot_kind name_kind ih =>
      rw [surplus_other (by simp [dot_kind]) (by simp [dot_kind]),
        surplus_other (by simp [name_kind]) (by simp [name_kind])] at ih
      exact ih

end

/-- Whether as many square brackets are opened in a range as are closed. -/
def Balanced (tokens : List Token) (range : ByteRange) : Prop :=
  (tokens.countP fun token => token.kind = .lbracket && range.contains token.range) =
    tokens.countP fun token => token.kind = .rbracket && range.contains token.range

instance (tokens : List Token) (range : ByteRange) : Decidable (Balanced tokens range) := by
  unfold Balanced
  infer_instance

/-- The place that the tokens of a list before some of its last ones lead to. -/
def PlaceAt (all tokens : List Token) (place : LexPlace) : Prop :=
  ∃ before, all = before ++ tokens ∧ LexPlace.after before = place

theorem PlaceAt.pass {all rest : List Token} {token : Token} {place : LexPlace}
    (placed : PlaceAt all (token :: rest) place) : PlaceAt all rest (place.pass token) := by
  obtain ⟨before, split, rfl⟩ := placed
  refine ⟨before ++ [token], by simp [split], ?_⟩
  rw [LexPlace.after_append]
  rfl

theorem PlaceAt.suffix {all tokens : List Token} {place : LexPlace}
    (placed : PlaceAt all tokens place) : tokens <:+ all := by
  obtain ⟨before, split, -⟩ := placed
  exact ⟨before, split.symm⟩

def LexContext.Code : List LexContext → Prop
  | .trailing :: _ | .group _ :: _ => True
  | _ => False

namespace LexPlace

variable {place : LexPlace} {contexts : List LexContext} {token : Token} {rest : List Token}

/-- Whether mathematics goes on at a place, perhaps after an embedded expression to which
nothing is attached. -/
def InMath (contexts : List LexContext) (rest : List Token) (place : LexPlace) : Prop :=
  place.inCode = false ∧ (place.contexts = contexts ∨
    place.contexts = .trailing :: contexts ∧ ¬Attaches place.stop rest)

/-- Whether the next token, unless it closes a group, is read as code in some contexts. -/
def TakesCode (contexts : List LexContext) (rest : List Token) (place : LexPlace) : Prop :=
  ∀ token ∈ rest.head?, token.kind ≠ .rparen → place.pass token = code contexts token

theorem InMath.pass (inMath : place.InMath contexts (token :: rest))
    (inside : LexContext.Mathematics contexts) :
    place.pass token = mathematics contexts token := by
  obtain ⟨inCode, same | ⟨trailing, apart⟩⟩ := inMath
  · unfold LexPlace.pass
    rw [inCode, if_neg Bool.false_ne_true, same]
    split
    · cases inside
    · cases inside
    · rfl
  · unfold LexPlace.pass
    simp only [inCode, trailing]
    rw [if_neg Bool.false_ne_true, if_neg fun isDot => apart (.inl isDot),
      if_neg fun opens => apart (.inr opens)]

theorem InMath.outside (inMath : place.InMath contexts rest)
    (inside : LexContext.Mathematics contexts) : place.outside = contexts := by
  unfold LexPlace.outside
  obtain ⟨-, same | ⟨trailing, -⟩⟩ := inMath
  · rw [same]
    split
    · cases inside
    · rfl
  · rw [trailing]

theorem takesCode_of_inCode (inCode : place.inCode = true) :
    place.TakesCode (.trailing :: place.contexts) rest := by
  intro token _ _
  unfold LexPlace.pass
  rw [if_pos inCode]

theorem takesCode_of_group {start : Nat} {outer : List LexContext}
    (inCode : place.inCode = false) (group : place.contexts = .group start :: outer) :
    place.TakesCode (.group start :: outer) rest := by
  intro token _ notClosing
  unfold LexPlace.pass
  simp only [inCode, group]
  rw [if_neg Bool.false_ne_true, if_neg notClosing]

theorem takesCode_of_opening (inside : LexContext.Code contexts)
    (opens : token.kind = .lparen ∨ token.kind = .lbracket) :
    TakesCode contexts (token :: rest) ⟨contexts, false, token.range.start⟩ := by
  match contexts, inside with
  | .trailing :: outer, _ =>
      rintro _ ⟨⟩ -
      have notDot : token.kind ≠ .dot := by rcases opens with kind | kind <;> simp [kind]
      simp only [LexPlace.pass]
      rw [if_neg Bool.false_ne_true, if_neg notDot, if_pos ⟨opens, trivial⟩]
  | .group start :: outer, _ => exact takesCode_of_group rfl rfl

theorem pass_field {stop : Nat} {dot name : Token} (inside : LexContext.Code contexts)
    (dot_kind : dot.kind = .dot) (name_kind : name.kind = .ident) :
    (pass ⟨contexts, false, stop⟩ dot).pass name = ⟨contexts, false, name.range.stop⟩ := by
  match contexts, inside with
  | .trailing :: outer, _ => simp [LexPlace.pass, code, opened, dot_kind, name_kind]
  | .group start :: outer, _ => simp [LexPlace.pass, code, opened, dot_kind, name_kind]

theorem code_of_other (notGroup : token.kind ≠ .lparen) (notBlock : token.kind ≠ .lbracket) :
    code contexts token = ⟨contexts, false, token.range.stop⟩ := by
  rw [code, opened_of_other notGroup notBlock]

end LexPlace

/-- Whether the tokens of a list lead, at a bracket at which a range ends, to the block that was
opened where the range starts. -/
def LeadsOut (all : List Token) (range : ByteRange) : Prop :=
  ∃ before token after outer, all = before ++ token :: after ∧ token.kind = .rbracket ∧
    token.range.stop = range.stop ∧
    (LexPlace.after before).outside = .block range.start 0 :: outer

/-- Whether a stretch of tokens leads back to the contexts in which it starts, and to each of its
blocks at the end of the block. The brackets of mathematics in a block have to be balanced. -/
def Stretch.Follows (all : List Token) (blocks : ByteRange → Prop) (tokens rest : List Token) :
    Stretch → Prop
  | .row false => ∀ {contexts place}, LexContext.Mathematics contexts → PlaceAt all tokens place →
      place.InMath contexts tokens → (contexts ≠ [] → surplus tokens = surplus rest) →
      (∃ later, PlaceAt all rest later ∧ later.InMath contexts rest) ∧
        ∀ range, blocks range → LeadsOut all range
  | .row true => ∀ {start outer place}, PlaceAt all tokens place → place.inCode = false →
      place.contexts = .group start :: outer →
      (∃ later, PlaceAt all rest later ∧ later.inCode = false ∧
        later.contexts = .group start :: outer) ∧ ∀ range, blocks range → LeadsOut all range
  | .operand stop => ∀ {contexts place}, LexContext.Code contexts → PlaceAt all tokens place →
      place.TakesCode contexts tokens →
      PlaceAt all rest ⟨contexts, false, stop⟩ ∧ ∀ range, blocks range → LeadsOut all range

theorem passed_brackets {contexts : List LexContext} (inside : LexContext.Mathematics contexts) :
    LexContext.Mathematics (passed .lbracket contexts) ∧
      passed .rbracket (passed .lbracket contexts) = contexts ∧
      (passed .lbracket contexts ≠ [] → contexts ≠ []) := by
  match contexts, inside with
  | [], _ => exact ⟨trivial, rfl, id⟩
  | .block start 0 :: outer, _ => exact ⟨trivial, rfl, fun _ => List.cons_ne_nil _ _⟩
  | .block start (brackets + 1) :: outer, _ =>
      exact ⟨trivial, rfl, fun _ => List.cons_ne_nil _ _⟩

namespace Stretch

variable {all tokens middle rest : List Token} {blocks others : ByteRange → Prop}
  {token opening closing : Token} {inCode : Bool} {stop later : Nat}

theorem follows_nothing : (Stretch.row inCode).Follows all (fun _ => False) rest rest := by
  cases inCode with
  | false =>
      intro contexts place inside placed inMath even
      exact ⟨⟨place, placed, inMath⟩, fun range none => none.elim⟩
  | true =>
      intro start outer place placed inCode group
      exact ⟨⟨place, placed, inCode, group⟩, fun range none => none.elim⟩

theorem follows_append (left_le : surplus middle ≤ surplus tokens)
    (right_le : surplus rest ≤ surplus middle)
    (left : (Stretch.row inCode).Follows all blocks tokens middle)
    (right : (Stretch.row inCode).Follows all others middle rest) :
    (Stretch.row inCode).Follows all (fun range => blocks range ∨ others range) tokens rest := by
  cases inCode with
  | false =>
      intro contexts place inside placed inMath even
      -- The surplus never rises along a row, so if it is the same at both ends, it is the same
      -- between.
      obtain ⟨⟨between, between_placed, between_inMath⟩, left_out⟩ :=
        left inside placed inMath fun inBlock => by have := even inBlock; omega
      obtain ⟨later, right_out⟩ :=
        right inside between_placed between_inMath fun inBlock => by
          have := even inBlock
          omega
      exact ⟨later, fun range isBlock => isBlock.elim (left_out range) (right_out range)⟩
  | true =>
      intro start outer place placed inCode group
      obtain ⟨⟨between, between_placed, between_inCode, between_group⟩, left_out⟩ :=
        left placed inCode group
      obtain ⟨later, right_out⟩ := right between_placed between_inCode between_group
      exact ⟨later, fun range isBlock => isBlock.elim (left_out range) (right_out range)⟩

theorem follows_mark (notHash : token.kind ≠ .hash) (notOpening : token.kind ≠ .lbracket) :
    (Stretch.row false).Follows all (fun _ => False) (token :: rest) rest := by
  intro contexts place inside placed inMath even
  have passes := placed.pass
  rw [inMath.pass inside, LexPlace.mathematics, decide_eq_false notHash] at passes
  have stays : passed token.kind contexts = contexts := by
    by_cases closing : token.kind = .rbracket
    · -- In a block the counts are even, so a closing bracket that stands alone is outside.
      have outside : contexts = [] := Classical.byContradiction fun inBlock => by
        have := even inBlock
        rw [surplus_closing closing] at this
        omega
      rw [closing, outside]
      rfl
    · exact passed_of_other notOpening closing contexts
  rw [stays] at passes
  exact ⟨⟨_, passes, rfl, .inl rfl⟩, fun range none => none.elim⟩

theorem follows_brackets (opening_kind : opening.kind = .lbracket)
    (closing_kind : closing.kind = .rbracket)
    (inner : (Stretch.row false).Follows all blocks middle (closing :: rest)) :
    (Stretch.row false).Follows all blocks (opening :: middle) rest := by
  intro contexts place inside placed inMath even
  obtain ⟨deeper, back, inBlock⟩ := passed_brackets inside
  have passes := placed.pass
  rw [inMath.pass inside, LexPlace.mathematics, opening_kind] at passes
  obtain ⟨⟨later, later_placed, later_inMath⟩, out⟩ :=
    inner deeper passes ⟨rfl, .inl rfl⟩ fun inDeeper => by
      have := even (inBlock inDeeper)
      rw [surplus_opening opening_kind] at this
      rw [surplus_closing closing_kind]
      omega
  have leaves := later_placed.pass
  rw [later_inMath.pass deeper, LexPlace.mathematics, closing_kind, back] at leaves
  exact ⟨⟨_, leaves, rfl, .inl rfl⟩, out⟩

theorem follows_embedded (kind : token.kind = .hash) (ends : ¬Attaches stop rest)
    (expr : (Stretch.operand stop).Follows all blocks middle rest) :
    (Stretch.row false).Follows all blocks (token :: middle) rest := by
  intro contexts place inside placed inMath even
  have passes := placed.pass
  have stays : passed token.kind contexts = contexts :=
    passed_of_other (by simp [kind]) (by simp [kind]) contexts
  rw [inMath.pass inside, LexPlace.mathematics, stays, decide_eq_true kind] at passes
  have code : LexContext.Code (.trailing :: contexts) := trivial
  obtain ⟨after, out⟩ := expr code passes (LexPlace.takesCode_of_inCode rfl)
  exact ⟨⟨_, after, rfl, .inr ⟨rfl, ends⟩⟩, out⟩

theorem follows_codeMark (notGroup : token.kind ≠ .lparen) (notBlock : token.kind ≠ .lbracket)
    (notClosing : token.kind ≠ .rparen) :
    (Stretch.row true).Follows all (fun _ => False) (token :: rest) rest := by
  intro start outer place placed inCode group
  have takes : place.TakesCode (.group start :: outer) (token :: rest) :=
    LexPlace.takesCode_of_group inCode group
  have passes := placed.pass
  rw [takes token rfl notClosing, LexPlace.code_of_other notGroup notBlock] at passes
  exact ⟨⟨_, passes, rfl, rfl⟩, fun range none => none.elim⟩

theorem follows_expr (operand : (Stretch.operand stop).Follows all blocks tokens rest) :
    (Stretch.row true).Follows all blocks tokens rest := by
  intro start outer place placed inCode group
  have code : LexContext.Code (.group start :: outer) := trivial
  obtain ⟨after, out⟩ := operand code placed (LexPlace.takesCode_of_group inCode group)
  exact ⟨⟨_, after, rfl, rfl⟩, out⟩

theorem follows_atom (notGroup : token.kind ≠ .lparen) (notBlock : token.kind ≠ .lbracket)
    (notClosing : token.kind ≠ .rparen) :
    (Stretch.operand token.range.stop).Follows all (fun _ => False) (token :: rest) rest := by
  intro contexts place inside placed takes
  have passes := placed.pass
  rw [takes token rfl notClosing, LexPlace.code_of_other notGroup notBlock] at passes
  exact ⟨passes, fun range none => none.elim⟩

theorem follows_group (opening_kind : opening.kind = .lparen)
    (closing_kind : closing.kind = .rparen)
    (inner : (Stretch.row true).Follows all blocks middle (closing :: rest)) :
    (Stretch.operand closing.range.stop).Follows all blocks (opening :: middle) rest := by
  intro contexts place inside placed takes
  have passes := placed.pass
  rw [takes opening rfl (by simp [opening_kind]), LexPlace.code, opened, opening_kind] at passes
  obtain ⟨⟨later, later_placed, later_inCode, later_group⟩, out⟩ := inner passes rfl rfl
  have leaves := later_placed.pass
  unfold LexPlace.pass at leaves
  simp only [later_inCode, later_group] at leaves
  rw [if_neg Bool.false_ne_true, if_pos closing_kind] at leaves
  exact ⟨leaves, out⟩

theorem follows_attach (opens : opening.kind = .lparen ∨ opening.kind = .lbracket)
    (adjacent : stop = opening.range.start)
    (operand : (Stretch.operand stop).Follows all blocks tokens (opening :: middle))
    (attached : (Stretch.operand later).Follows all others (opening :: middle) rest) :
    (Stretch.operand later).Follows all (fun range => blocks range ∨ others range) tokens
      rest := by
  intro contexts place inside placed takes
  obtain ⟨between, operand_out⟩ := operand inside placed takes
  rw [adjacent] at between
  obtain ⟨after, attached_out⟩ :=
    attached inside between (LexPlace.takesCode_of_opening inside opens)
  exact ⟨after, fun range isBlock => isBlock.elim (operand_out range) (attached_out range)⟩

theorem follows_field {dot name : Token} (dot_kind : dot.kind = .dot)
    (name_kind : name.kind = .ident)
    (operand : (Stretch.operand stop).Follows all blocks tokens (dot :: name :: rest)) :
    (Stretch.operand name.range.stop).Follows all blocks tokens rest := by
  intro contexts place inside placed takes
  obtain ⟨after, out⟩ := operand inside placed takes
  have passes := after.pass.pass
  rw [LexPlace.pass_field inside dot_kind name_kind] at passes
  exact ⟨passes, out⟩

end Stretch

section

variable {all : List Token}
  (ordered : all.Pairwise fun earlier later => earlier.range.stop ≤ later.range.start)
  (nonempty : ∀ token ∈ all, token.kind ≠ .eof → token.range.start < token.range.stop)
include ordered nonempty

theorem balanced_iff {opening closing : Token} {inside : List Token}
    (within : opening :: (inside ++ [closing]) <:+: all) (opening_kind : opening.kind = .lbracket)
    (closing_kind : closing.kind = .rbracket) :
    Balanced all (.cover opening.range closing.range) ↔
      (inside.countP fun token => token.kind = .lbracket) =
        inside.countP fun token => token.kind = .rbracket := by
  have counted (kind : TokenKind) (inText : kind ≠ .eof) :
      (all.countP fun token =>
        token.kind = kind && (ByteRange.cover opening.range closing.range).contains token.range) =
        (opening :: (inside ++ [closing])).countP fun token => token.kind = kind := by
    refine countP_within ordered within rfl ?_ fun token member same => ?_
    · rw [← List.cons_append, List.getLast?_concat]
    · have kind := of_decide_eq_true same
      exact nonempty token member (kind ▸ inText)
  unfold Balanced
  rw [counted .lbracket (by simp), counted .rbracket (by simp)]
  simp [List.countP_append, opening_kind, closing_kind]

theorem surplus_of_balanced {opening closing : Token} {middle rest : List Token}
    (within : opening :: middle <:+ all) (inside : closing :: rest <:+ middle)
    (opening_kind : opening.kind = .lbracket) (closing_kind : closing.kind = .rbracket)
    (balanced : Balanced all (.cover opening.range closing.range)) :
    surplus middle = surplus (closing :: rest) := by
  obtain ⟨between, rfl⟩ := inside
  have run : opening :: (between ++ [closing]) <:+: all := by
    obtain ⟨before, rfl⟩ := within
    exact ⟨before, rest, by simp⟩
  have same := (balanced_iff ordered nonempty run opening_kind closing_kind).mp balanced
  rw [surplus_append, surplus, same]
  omega

/-- The only construct that uses the balance: it lets the mathematics of a block end at the
bracket that the lexer ends the block at. -/
theorem Stretch.follows_block {blocks : ByteRange → Prop} {opening closing : Token}
    {middle rest : List Token} (opening_kind : opening.kind = .lbracket)
    (closing_kind : closing.kind = .rbracket) (within : closing :: rest <:+ middle)
    (balanced : Balanced all (.cover opening.range closing.range))
    (inner : (Stretch.row false).Follows all blocks middle (closing :: rest)) :
    (Stretch.operand closing.range.stop).Follows all
      (fun range => .cover opening.range closing.range = range ∨ blocks range)
      (opening :: middle) rest := by
  intro contexts place inside placed takes
  have passes := placed.pass
  rw [takes opening rfl (by simp [opening_kind]), LexPlace.code, opened, opening_kind] at passes
  have even : surplus middle = surplus (closing :: rest) :=
    surplus_of_balanced ordered nonempty placed.suffix within opening_kind closing_kind balanced
  have mathematics : LexContext.Mathematics (.block opening.range.start 0 :: contexts) :=
    trivial
  obtain ⟨⟨later, later_placed, later_inMath⟩, out⟩ :=
    inner mathematics passes ⟨rfl, .inl rfl⟩ fun _ => even
  have leaves := later_placed.pass
  rw [later_inMath.pass mathematics, LexPlace.mathematics, closing_kind] at leaves
  refine ⟨leaves, ?_⟩
  rintro range (rfl | isBlock)
  · obtain ⟨before, split, same⟩ := later_placed
    refine ⟨before, closing, rest, contexts, split, closing_kind, ?_, ?_⟩
    · have apart := List.rel_of_pairwise_cons (ordered.sublist placed.suffix.sublist)
        (within.subset List.mem_cons_self)
      exact (ByteRange.stop_cover_of_before apart).symm
    · rw [same]
      exact later_inMath.outside mathematics
  · exact out range isBlock

/-- Where the brackets of all blocks are balanced, the tokens lead out of each block where it
ends. -/
theorem Bracketed.follows {stretch : Stretch} {blocks : ByteRange → Prop}
    {tokens rest : List Token} (bracketed : Bracketed stretch blocks tokens rest)
    (balanced : ∀ range, blocks range → Balanced all range) :
    stretch.Follows all blocks tokens rest := by
  induction bracketed with
  | nothing => exact Stretch.follows_nothing
  | append left right left_ih right_ih =>
      exact Stretch.follows_append left.surplus_le right.surplus_le
        (left_ih fun range isBlock => balanced range (.inl isBlock))
        (right_ih fun range isBlock => balanced range (.inr isBlock))
  | mark notHash notOpening => exact Stretch.follows_mark notHash notOpening
  | brackets opening_kind closing_kind _ ih =>
      exact Stretch.follows_brackets opening_kind closing_kind (ih balanced)
  | embedded kind _ ends ih => exact Stretch.follows_embedded kind ends (ih balanced)
  | codeMark notGroup notBlock notClosing =>
      exact Stretch.follows_codeMark notGroup notBlock notClosing
  | expr _ ih => exact Stretch.follows_expr (ih balanced)
  | atom notGroup notBlock notClosing => exact Stretch.follows_atom notGroup notBlock notClosing
  | group opening_kind closing_kind _ ih =>
      exact Stretch.follows_group opening_kind closing_kind (ih balanced)
  | block opening_kind closing_kind inside ih =>
      exact Stretch.follows_block ordered nonempty opening_kind closing_kind inside.suffix
        (balanced _ (.inl rfl)) (ih fun range isBlock => balanced range (.inr isBlock))
  | attach _ opens adjacent _ operand_ih attached_ih =>
      exact Stretch.follows_attach opens adjacent
        (operand_ih fun range isBlock => balanced range (.inl isBlock))
        (attached_ih fun range isBlock => balanced range (.inr isBlock))
  | field _ dot_kind name_kind ih => exact Stretch.follows_field dot_kind name_kind (ih balanced)

end

/-- Whether the square brackets of every content block of a tree are balanced. -/
def BlocksBalanced (tokens : List Token) (tree : Node) : Prop :=
  ∀ part ∈ tree.subtree, part.isBlock = true → Balanced tokens part.range

instance (tokens : List Token) (tree : Node) : Decidable (BlocksBalanced tokens tree) := by
  unfold BlocksBalanced
  infer_instance

/-- Whether every content block of a tree ends with the token at which the lexer closes the
block that it opens where the content block starts. -/
def BlocksClosed (text : String) (tokens : List Token) (tree : Node) : Prop :=
  ∀ part ∈ tree.subtree, part.isBlock = true →
    ∃ token ∈ tokens, token.kind = .rbracket ∧ token.range.stop = part.range.stop ∧
      ClosesBlock text part.range.start token

section

variable {text : String} {tokens : TokenList} (tokenized : tokenize text = .ok tokens)
include tokenized

theorem nonempty_of_tokenize :
    ∀ token ∈ tokens.toList, token.kind ≠ .eof → token.range.start < token.range.stop := by
  intro token member inText
  have inOrder := TokenList.inOrder_of_tokenize tokenized
  rcases List.mem_append.mp member with member | isLast
  · exact inOrder.nonempty token member
  · rw [List.mem_singleton.mp isLast, inOrder.last] at inText
    contradiction

theorem Lexer.ClosesBlock.balanced_range {range : ByteRange} {token : Token}
    (closes : ClosesBlock text range.start token) (stop : token.range.stop = range.stop) :
    Balanced tokens.toList range := by
  have inOrder := TokenList.inOrder_of_tokenize tokenized
  obtain ⟨before, opening, inside, after, split, opening_kind, opens, kind, even⟩ :=
    closes.balanced tokenized
  have within : opening :: (inside ++ [token]) <:+: tokens.toList :=
    ⟨before, after ++ [tokens.last], by simp [TokenList.toList, split]⟩
  have apart : opening.range.stop ≤ token.range.start := by
    have run := inOrder.ordered.sublist within.sublist
    exact List.rel_of_pairwise_cons run (List.mem_append_right _ List.mem_cons_self)
  have same : range = .cover opening.range token.range := by
    have start : (ByteRange.cover opening.range token.range).start = range.start := opens
    have final := (ByteRange.stop_cover_of_before apart).trans stop
    cases range
    cases covered : ByteRange.cover opening.range token.range
    simp_all
  rw [same, balanced_iff inOrder.ordered (nonempty_of_tokenize tokenized) within opening_kind kind]
  exact even.symm

theorem LeadsOut.closes {range : ByteRange} (leads : LeadsOut tokens.toList range) :
    ∃ token ∈ tokens.toList, token.kind = .rbracket ∧ token.range.stop = range.stop ∧
      ClosesBlock text range.start token := by
  obtain ⟨before, token, after, outer, split, kind, stop, block⟩ := leads
  have inOrder := TokenList.inOrder_of_tokenize tokenized
  refine ⟨token, by simp [split], kind, stop, ?_⟩
  rcases split_append split.symm with ⟨more, inText⟩ | ⟨more, -, isLast⟩
  · exact closes_of_tokenize tokenized before token more inText kind _ outer block
  · exfalso
    have member : token ∈ [tokens.last] := by simp [isLast]
    rw [List.mem_singleton.mp member, inOrder.last] at kind
    cases kind

variable {formula : Formula} (read : Formula.ofTokens tokens = .ok formula)

theorem BlocksClosed.balanced {tree : Node} (closed : BlocksClosed text tokens.toList tree) :
    BlocksBalanced tokens.toList tree := by
  intro part member isBlock
  obtain ⟨token, -, -, stop, closes⟩ := closed part member isBlock
  exact closes.balanced_range tokenized stop

include read

theorem BlocksBalanced.closed (balanced : BlocksBalanced tokens.toList formula.node) :
    BlocksClosed text tokens.toList formula.node := by
  have inOrder := TokenList.inOrder_of_tokenize tokenized
  obtain ⟨written, -⟩ := Formula.written_of_ofTokens inOrder.inText
    (by rw [inOrder.last]) read
  have bracketed : Bracketed (.row false) (HasBlocks formula.exprs) tokens.toList [tokens.last] :=
    written.isBracketed inOrder.ordered List.suffix_rfl
  have even : ∀ range, HasBlocks formula.exprs range → Balanced tokens.toList range := by
    intro range hasBlock
    obtain ⟨part, member, isBlock, rfl⟩ := (Node.hasBlock_math _ formula.place).mpr hasBlock
    exact balanced part member isBlock
  have mathematics : LexContext.Mathematics [] := trivial
  have start : PlaceAt tokens.toList tokens.toList .start := ⟨[], rfl, rfl⟩
  obtain ⟨-, out⟩ := bracketed.follows inOrder.ordered (nonempty_of_tokenize tokenized) even
    mathematics start ⟨rfl, .inl rfl⟩ (absurd rfl)
  intro part member isBlock
  refine (out part.range ?_).closes tokenized
  exact (Node.hasBlock_math _ formula.place).mp ⟨part, member, isBlock, rfl⟩

end

/-- Every content block ends where the lexer ends it if and only if the square brackets of each
of them are balanced. -/
theorem blocks_closed_iff_balanced (text : String) (tokens : TokenList) (formula : Formula)
    (tokenized : tokenize text = .ok tokens) (read : Formula.ofTokens tokens = .ok formula) :
    BlocksClosed text tokens.toList formula.node ↔
      BlocksBalanced tokens.toList formula.node :=
  ⟨fun closed => closed.balanced tokenized, fun balanced => balanced.closed tokenized read⟩

/-- A block in a block and two blocks of one call, with square brackets, a lone parenthesis and a
bar in them. -/
theorem blocks_closed_of_nested :
    ∃ tokens formula, tokenize "#f([a [b) | c] d], k: [x#g[y]])[z]" = .ok tokens ∧
      Formula.ofTokens tokens = .ok formula ∧
      (formula.node.subtree.countP TreePart.isBlock) = 4 ∧
      BlocksClosed "#f([a [b) | c] d], k: [x#g[y]])[z]" tokens.toList formula.node := by
  have evaluated : ((tokenize "#f([a [b) | c] d], k: [x#g[y]])[z]").toOption.any fun tokens =>
      (Formula.ofTokens tokens).toOption.any fun formula =>
        formula.node.subtree.countP TreePart.isBlock = 4 &&
          BlocksBalanced tokens.toList formula.node) = true := by
    decide +kernel
  cases tokenized : tokenize "#f([a [b) | c] d], k: [x#g[y]])[z]" with
  | error errors =>
      rw [tokenized] at evaluated
      cases evaluated
  | ok tokens =>
      rw [tokenized] at evaluated
      cases read : Formula.ofTokens tokens with
      | error failure =>
          simp only [Except.toOption, Option.any, read] at evaluated
          cases evaluated
      | ok formula =>
          simp only [Except.toOption, Option.any, read] at evaluated
          obtain ⟨count, balanced⟩ := Bool.and_eq_true_iff.mp evaluated
          exact ⟨tokens, formula, rfl, read, of_decide_eq_true count,
            (blocks_closed_iff_balanced _ tokens formula tokenized read).mpr
              (of_decide_eq_true balanced)⟩

/-- A block whose parenthesis holds the bracket at which the lexer ends the block. -/
theorem blocks_not_closed_of_crossed_brackets :
    ∃ tokens formula, tokenize "#[(])]" = .ok tokens ∧ Formula.ofTokens tokens = .ok formula ∧
      ¬BlocksClosed "#[(])]" tokens.toList formula.node := by
  have evaluated : ((tokenize "#[(])]").toOption.any fun tokens =>
      (Formula.ofTokens tokens).toOption.any fun formula =>
        !BlocksBalanced tokens.toList formula.node) = true := by
    decide +kernel
  cases tokenized : tokenize "#[(])]" with
  | error errors =>
      rw [tokenized] at evaluated
      cases evaluated
  | ok tokens =>
      rw [tokenized] at evaluated
      cases read : Formula.ofTokens tokens with
      | error failure =>
          simp only [Except.toOption, Option.any, read] at evaluated
          cases evaluated
      | ok formula =>
          simp only [Except.toOption, Option.any, read] at evaluated
          refine ⟨tokens, formula, rfl, read, fun closed => ?_⟩
          have balanced := closed.balanced tokenized
          simp [balanced] at evaluated

end EquationMap
