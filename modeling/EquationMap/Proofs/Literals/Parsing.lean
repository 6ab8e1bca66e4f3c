import EquationMap.Proofs.Literals.Evaluation
import EquationMap.Proofs.Literals.Lexing
import EquationMap.Proofs.Parsing.Operators
import Mathlib.Data.Nat.Digits.Defs

namespace EquationMap

open Grammar Reading

namespace Token

variable {token : Token} {kind : TokenKind} {value : String}

theorem kind_of_bare (bare : token.bare = (kind, value)) : token.kind = kind :=
  congrArg Prod.fst bare

theorem value_of_bare (bare : token.bare = (kind, value)) : token.value = value :=
  congrArg Prod.snd bare

end Token

theorem Cursor.before_append (earlier later : List Token) (next token : Token) (rest : List Token)
    (errors : List SyntaxError) :
    before (earlier ++ token :: later) next rest errors =
      before earlier token (later ++ next :: rest) errors := by
  cases earlier with
  | nil => rfl
  | cons first earlier => simp [before]

theorem Decimal.readDigits_eq {digits : List Char} (all : ∀ c ∈ digits, Lexer.IsDecimal c)
    (start : Nat) : readDigits start digits = some (Nat.ofDigitChars 10 digits start) := by
  induction digits generalizing start with
  | nil => rfl
  | cons c rest induction =>
      obtain ⟨here, later⟩ := List.forall_mem_cons.mp all
      rw [readDigits, here.value, Nat.ofDigitChars_cons]
      exact induction later _

theorem Decimal.readInteger_toString {size : Nat} (writable : isWritable (size : Int) = true) :
    readInteger (toString size) = .ok size := by
  have digits : (toString size).toList = Nat.toDigits 10 size := Nat.toList_repr
  have bounded (limit : Nat) (positive : 0 < limit) (small : size < Nat.pow 10 limit) :
      (Nat.toDigits 10 size).length ≤ limit := Nat.toDigits_length 10 size limit positive small
  have short := bounded digitLimit (by decide) (of_decide_eq_true writable)
  have counted := Nat.le_trans
    (List.takeWhile_sublist fun c => (Text.decimalValue? c).isSome).length_le short
  rw [readInteger, readNatural?, digits, readDigits_eq (fun _ => Lexer.isDecimal_of_mem_toDigits),
    Nat.ofDigitChars_ten_toDigits]
  exact if_neg (Nat.not_lt.mpr counted)

namespace Grammar

variable {needed : Nat} {node : Node} {token opening closing next : Token}
  {tokens rest : List Token} {errors : List SyntaxError}

theorem no_operator {power : Nat} : ∀ operand ∈ ([] : List (InfixMark × CodeOperand)).head?,
    operand.1.op.leftPower < power := by
  rintro operand ⟨⟩

theorem needs_leaf (leaf : CodeLeaf) (ends : EndsCode next) :
    Needs (fun levels => phrase levels (.expression 0)) 1 ⟨leaf.token, next :: rest, errors⟩
      leaf.node ⟨next, rest, errors⟩ := by
  have reads : ReadsExpression 0 ⟨⟨[], leaf⟩, []⟩ (.operand leaf) [] :=
    readsExpression (readsOperand_leaf leaf) (readsOthers_stop trivial trivial no_operator)
  exact reads.reads next rest errors ends

theorem needs_negative (mark : PrefixMark) (leaf : CodeLeaf) (ends : EndsCode next) :
    Needs (fun levels => phrase levels (.expression 0)) 2
      ⟨mark.token, leaf.token :: next :: rest, errors⟩
      (.unary mark.op leaf.node ⟨.cover mark.token.range leaf.node.range, .detached⟩)
      ⟨next, rest, errors⟩ := by
  have inner : ReadsExpression mark.op.power ⟨⟨[], leaf⟩, []⟩ (.operand leaf) [] :=
    readsExpression (readsOperand_leaf leaf) (readsOthers_stop trivial trivial no_operator)
  have reads : ReadsExpression 0 ⟨⟨[mark], leaf⟩, []⟩ (.unary mark (.operand leaf)) [] :=
    readsExpression (readsOperand_unary inner)
      (readsOthers_stop (readsOperand_unary inner).grouped trivial no_operator)
  exact reads.reads next rest errors ends

theorem needs_expression_of_group (kind : opening.kind = .lparen) (ends : EndsCode next)
    (needs : Needs (fun levels => codeGroup (phrase levels)) needed ⟨opening, tokens, errors⟩ node
      ⟨next, rest, errors⟩) :
    Needs (fun levels => phrase levels (.expression 0)) (needed + 1) ⟨opening, tokens, errors⟩ node
      ⟨next, rest, errors⟩ := by
  have operand : Needs (fun levels => codeGroup (phrase levels) >>= codeTail (phrase levels)) needed
      ⟨opening, tokens, errors⟩ node ⟨next, rest, errors⟩ :=
    needs.ending (fun _ => codeTail_stops ends.operand) rfl
  have whole : Needs (fun levels => (codeGroup (phrase levels) >>= codeTail (phrase levels)) >>=
      expressionFrom (phrase levels) 0) needed ⟨opening, tokens, errors⟩ node
      ⟨next, rest, errors⟩ := by
    refine operand.ending (fun levels => ?_) rfl
    unfold expressionFrom
    rw [current_bind]
    dsimp only
    rw [ends.noOperator]
    rfl
  refine .deeper (whole.later (fun levels => ?_) rfl)
  have operand_eq : codeOperand (phrase levels) ⟨opening, tokens, errors⟩ =
      (codeGroup (phrase levels) >>= codeTail (phrase levels)) ⟨opening, tokens, errors⟩ := by
    unfold codeOperand
    rw [current_bind]
    dsimp only
    rw [kind]
    change (codeAtom (phrase levels) >>= codeTail (phrase levels)) _ = _
    rw [bind_apply, bind_apply, codeAtom_group kind]
  change (codeOperand (phrase levels) >>= expressionFrom (phrase levels) 0) _ = _
  rw [bind_apply, bind_apply, operand_eq]

/-! Items of a group. -/

def itemsAfter (deeper : Phrase → Reading Node) (found : List Node) (fuel : Nat) (item : Node) :
    Reading (List Node × Bool) := do
  if ← isAt .comma then
    let _ ← advance
    codeItemsFrom deeper (item :: found) true fuel
  else return ((item :: found).reverse, false)

theorem codeItemsFrom_item {deeper : Phrase → Reading Node} (begins : BeginsItem token)
    (found : List Node) (flag : Bool) (fuel : Nat) :
    codeItemsFrom deeper found flag (fuel + 1) ⟨token, tokens, errors⟩ =
      (codeItem deeper >>= itemsAfter deeper found fuel) ⟨token, tokens, errors⟩ := by
  obtain ⟨noClose, -, -, inText⟩ := begins
  rw [codeItemsFrom, current_bind]
  dsimp only
  rw [if_neg (not_or.mpr ⟨noClose, inText⟩)]
  rfl

/-- Tokens that are read as an item, with a tree of some sort, before any token that ends it. -/
structure ReadsItem (bound : Nat) (bare : List (TokenKind × String)) (good : Node → Prop) :
    Prop where
  begins : ∀ tokens : List Token, tokens.map Token.bare = bare →
    ∃ token rest, tokens = token :: rest ∧ BeginsItem token
  reads : ∀ tokens : List Token, tokens.map Token.bare = bare → ∀ next rest errors,
    next.kind = .comma ∨ next.kind = .rparen → ∃ node needed, needed ≤ bound ∧ good node ∧
      Needs (fun levels => codeItem (phrase levels)) needed (.before tokens next rest errors) node
        ⟨next, rest, errors⟩

section

variable {bound : Nat} {bare : List (TokenKind × String)} {good : Node → Prop}

theorem ReadsItem.exists_last (item : ReadsItem bound bare good) (kind : closing.kind = .rparen)
    (same : tokens.map Token.bare = bare) (found : List Node) (flag : Bool) (fuel : Nat) (rest)
    (errors) :
    ∃ node needed, needed ≤ bound ∧ good node ∧
      Needs (fun levels => codeItemsFrom (phrase levels) found flag (fuel + 1)) needed
        (.before tokens closing rest errors) (found.reverse ++ [node], false)
        ⟨closing, rest, errors⟩ := by
  obtain ⟨node, needed, le, isGood, needs⟩ := item.reads tokens same closing rest errors (.inr kind)
  obtain ⟨token, others, rfl, begins⟩ := item.begins tokens same
  refine ⟨node, needed, le, isGood, ?_⟩
  have whole : Needs (fun levels => codeItem (phrase levels) >>=
      itemsAfter (phrase levels) found fuel) needed (.before (token :: others) closing rest errors)
      (found.reverse ++ [node], false) ⟨closing, rest, errors⟩ := by
    refine needs.ending (fun levels => ?_) rfl
    unfold itemsAfter
    rw [isAt_bind, kind]
    simp
  exact whole.later (fun levels => codeItemsFrom_item begins found flag fuel) rfl

theorem ReadsItem.exists_before {mark : Token} (item : ReadsItem bound bare good)
    (kind : mark.kind = .comma) (same : tokens.map Token.bare = bare) (later : List Token)
    (found : List Node) (flag : Bool) (fuel : Nat) (rest : List Token)
    (errors : List SyntaxError) :
    ∃ node needed, needed ≤ bound ∧ good node ∧ ∀ more result last,
      Needs (fun levels => codeItemsFrom (phrase levels) (node :: found) true fuel) more
          (.before later closing rest errors) result last →
        Needs (fun levels => codeItemsFrom (phrase levels) found flag (fuel + 1)) (max needed more)
          (.before (tokens ++ mark :: later) closing rest errors) result last := by
  obtain ⟨node, needed, le, isGood, needs⟩ :=
    item.reads tokens same mark (later ++ closing :: rest) errors (.inl kind)
  obtain ⟨token, others, rfl, begins⟩ := item.begins tokens same
  refine ⟨node, needed, le, isGood, fun more result last needs_later => ?_⟩
  rw [Cursor.before_append]
  have after : Needs (fun levels => itemsAfter (phrase levels) found fuel node) more
      ⟨mark, later ++ closing :: rest, errors⟩ result last := by
    refine needs_later.later (fun levels => ?_) (Cursor.errors_before _ _ _ _)
    unfold itemsAfter
    rw [isAt_bind, kind, decide_eq_true rfl, if_pos rfl, advance_bind]
    exact congrArg _ (Cursor.next_before mark later closing rest errors)
  exact (needs.bind after).later (fun levels => codeItemsFrom_item begins found flag fuel) rfl

theorem exists_items {α : Type} {written : α → List (TokenKind × String)}
    {good : α → Node → Prop} (kind : closing.kind = .rparen) (rest : List Token)
    (errors : List SyntaxError) :
    ∀ (parts : List α) (tokens : List Token) (found : List Node) (flag : Bool) (fuel : Nat),
      (∀ part ∈ parts, ReadsItem bound (written part) (good part)) → parts ≠ [] →
      tokens.map Token.bare = [(.comma, ",")].intercalate (parts.map written) →
      tokens.length ≤ fuel →
      ∃ nodes needed, needed ≤ bound ∧ List.Forall₂ good parts nodes ∧
        Needs (fun levels => codeItemsFrom (phrase levels) found flag fuel) needed
          (.before tokens closing rest errors) (found.reverse ++ nodes, false)
          ⟨closing, rest, errors⟩
  | [], _, _, _, _, _, nonempty, _, _ => absurd rfl nonempty
  | [part], tokens, found, flag, fuel, each, _, same, enough => by
      have item := each part List.mem_cons_self
      rw [List.map_singleton, List.intercalate_singleton] at same
      obtain ⟨token, others, split, -⟩ := item.begins tokens same
      obtain ⟨fuel, rfl⟩ : ∃ fewer, fuel = fewer + 1 := by
        rw [split] at enough
        exact ⟨_, (Nat.sub_add_cancel (Nat.le_trans (Nat.le_add_left _ _) enough)).symm⟩
      obtain ⟨node, needed, le, isGood, needs⟩ :=
        item.exists_last kind same found flag fuel rest errors
      exact ⟨[node], needed, le, .cons isGood .nil, needs⟩
  | part :: second :: parts, tokens, found, flag, fuel, each, _, same, enough => by
      obtain ⟨here, later⟩ := List.forall_mem_cons.mp each
      rw [List.map_cons, List.map_cons, List.intercalate_cons_cons, List.append_assoc,
        List.singleton_append] at same
      obtain ⟨earlier, others, rfl, same_here, same_others⟩ := List.map_eq_append_iff.mp same
      obtain ⟨mark, others, rfl, isMark, same_later⟩ := List.map_eq_cons_iff.mp same_others
      rw [List.length_append, List.length_cons] at enough
      obtain ⟨fuel, rfl⟩ : ∃ fewer, fuel = fewer + 1 := ⟨fuel - 1, by omega⟩
      obtain ⟨node, needed, le, isGood, goes_on⟩ := here.exists_before (Token.kind_of_bare isMark)
        same_here others found flag fuel rest errors
      obtain ⟨nodes, more, le_more, areGood, needs⟩ := exists_items kind rest errors
        (second :: parts) others (node :: found) true fuel later (List.cons_ne_nil _ _) same_later
        (by omega)
      rw [List.reverse_cons, List.append_assoc] at needs
      exact ⟨node :: nodes, max needed more, Nat.max_le.mpr ⟨le, le_more⟩, .cons isGood areGood,
        goes_on more _ _ needs⟩

theorem needs_no_items (kind : closing.kind = .rparen) (found : List Node) (flag : Bool) :
    ∀ fuel, Needs (fun levels => codeItemsFrom (phrase levels) found flag fuel) 0
      ⟨closing, rest, errors⟩ (found.reverse, flag) ⟨closing, rest, errors⟩
  | 0 => .of_read (fun _ => rfl) rfl
  | fuel + 1 => by
      refine .of_read (fun levels => ?_) rfl
      rw [codeItemsFrom, current_bind]
      dsimp only
      rw [if_pos (.inl kind)]
      rfl

theorem needs_codeItems_of_from {result : List Node × Bool} {last : Cursor} (needs : Needs
      (fun levels => codeItemsFrom (phrase levels) [] false
        ((Cursor.before tokens closing rest errors).rest.length + 1)) needed
      (.before tokens closing rest errors) result last) :
    Needs (fun levels => codeItems (phrase levels)) needed (.before tokens closing rest errors)
      result last :=
  needs.later (fun _ => rfl) rfl

theorem ReadsItem.begins_append (item : ReadsItem bound bare good)
    {more : List (TokenKind × String)} (same : tokens.map Token.bare = bare ++ more) :
    ∃ token others, tokens = token :: others ∧ BeginsItem token := by
  obtain ⟨earlier, later, rfl, same, -⟩ := List.map_eq_append_iff.mp same
  obtain ⟨token, others, rfl, begins⟩ := item.begins earlier same
  exact ⟨token, others ++ later, rfl, begins⟩

theorem exists_codeItems {α : Type} {written : α → List (TokenKind × String)}
    {good : α → Node → Prop} {parts : List α}
    (each : ∀ part ∈ parts, ReadsItem bound (written part) (good part)) (nonempty : parts ≠ [])
    (kind : closing.kind = .rparen)
    (same : tokens.map Token.bare = [(.comma, ",")].intercalate (parts.map written))
    (rest : List Token) (errors : List SyntaxError) :
    (∃ token others, tokens = token :: others ∧ BeginsItem token) ∧
    ∃ nodes needed, needed ≤ bound ∧ List.Forall₂ good parts nodes ∧
      Needs (fun levels => codeItems (phrase levels)) needed (.before tokens closing rest errors)
        (nodes, false) ⟨closing, rest, errors⟩ := by
  have enough : tokens.length ≤ (Cursor.before tokens closing rest errors).rest.length + 1 := by
    cases tokens <;> simp [Cursor.before]
  obtain ⟨nodes, needed, le, areGood, needs⟩ :=
    exists_items kind rest errors parts tokens [] false _ each nonempty same enough
  refine ⟨?_, nodes, needed, le, areGood, needs_codeItems_of_from needs⟩
  obtain ⟨part, others, rfl⟩ := List.exists_cons_of_ne_nil nonempty
  have item := each part List.mem_cons_self
  cases others with
  | nil =>
      rw [List.map_singleton, List.intercalate_singleton] at same
      exact item.begins tokens same
  | cons second others =>
      rw [List.map_cons, List.map_cons, List.intercalate_cons_cons, List.append_assoc] at same
      exact item.begins_append same

theorem exists_codeItems_lone (item : ReadsItem bound bare good) (kind : closing.kind = .rparen)
    (same : tokens.map Token.bare = bare ++ [(.comma, ",")]) (rest : List Token)
    (errors : List SyntaxError) :
    (∃ token others, tokens = token :: others ∧ BeginsItem token) ∧
    ∃ node needed, needed ≤ bound ∧ good node ∧
      Needs (fun levels => codeItems (phrase levels)) needed (.before tokens closing rest errors)
        ([node], true) ⟨closing, rest, errors⟩ := by
  refine ⟨item.begins_append same, ?_⟩
  obtain ⟨earlier, others, rfl, same_here, same_others⟩ := List.map_eq_append_iff.mp same
  obtain ⟨mark, others, rfl, isMark, same_later⟩ := List.map_eq_cons_iff.mp same_others
  rw [List.map_eq_nil_iff] at same_later
  subst same_later
  obtain ⟨node, needed, le, isGood, goes_on⟩ := item.exists_before (Token.kind_of_bare isMark)
    same_here [] [] false (Cursor.before (earlier ++ [mark]) closing rest errors).rest.length rest
    errors
  have needs := goes_on 0 _ _ (needs_no_items kind [node] true _)
  exact ⟨node, needed, le, isGood, needs_codeItems_of_from (needs.of_levels (by simp))⟩

end

/-! Groups of trees that give values. -/

theorem groupOf_array {nodes : List Node} {values : List Value} {flag : Bool}
    (gives : List.Forall₂ Node.Gives nodes values) (noLone : nodes.length = 1 → flag = true)
    (place : Place) : groupOf nodes flag place = pure (.array nodes place) := by
  have items : ∀ node ∈ nodes, isPair node = false ∧ isSpread node = false :=
    ((List.forall₂_and_left nodes values).mp (gives.imp fun _ _ gives => ⟨gives.isItem, gives⟩)).1
  have noPair : ¬nodes.any isPair = true := by
    rw [List.any_eq_true]
    rintro ⟨node, member, pair⟩
    exact Bool.noConfusion ((items node member).1.symm.trans pair)
  unfold groupOf
  rw [if_neg noPair]
  split
  · exact absurd (items _ List.mem_cons_self).2 Bool.noConfusion
  · cases noLone rfl
  · rfl

theorem groupOf_dict {nodes : List Node} {entries : Entries Value} {flag : Bool}
    (gives : List.Forall₂ Node.GivesEntry nodes entries) (nonempty : nodes ≠ [])
    (place : Place) : groupOf nodes flag place = pure (.dict nodes place) := by
  have isPair_of_gives {node : Node} {entry : String × Value} (gives : node.GivesEntry entry) :
      isPair node = true := by
    obtain ⟨expr, place, rfl, -⟩ := gives
    rfl
  have pairs : ∀ node ∈ nodes, isPair node = true :=
    ((List.forall₂_and_left nodes entries).mp
      (gives.imp fun _ _ gives => ⟨isPair_of_gives gives, gives⟩)).1
  have some_pair : nodes.any isPair = true := by
    obtain ⟨node, others, rfl⟩ := List.exists_cons_of_ne_nil nonempty
    exact List.any_eq_true.mpr ⟨node, List.mem_cons_self, pairs node List.mem_cons_self⟩
  have all_pairs : (nodes.all fun item => isPair item || isSpread item) = true :=
    List.all_eq_true.mpr fun node member => Bool.or_eq_true _ _ ▸ .inl (pairs node member)
  have kept : (nodes.filter fun item => isPair item || isSpread item) = nodes :=
    List.filter_eq_self.mpr (List.all_eq_true.mp all_pairs)
  unfold groupOf
  rw [if_pos some_pair, if_pos all_pairs, kept]

theorem groupOf_parenthesized {value : Value} (gives : node.Gives value) (place : Place) :
    groupOf [node] false place = pure (.parenthesized node place) := by
  obtain ⟨noPair, noSpread⟩ := gives.isItem
  have noPairs : [node].any isPair = false := by
    rw [List.any_cons, noPair]
    rfl
  unfold groupOf
  rw [noPairs, if_neg Bool.false_ne_true]
  split
  · rename_i same
    cases same
    cases noSpread
  · rename_i same _
    cases same
    rfl
  · rename_i noLone
    exact (noLone node rfl rfl).elim

/-! Values. -/

/-- Whether the tokens of a value are read as a tree that gives the value, in so many levels,
before any token that ends an expression. -/
structure ReadsValue (bound : Nat) (value : Value) : Prop where
  begins : ∀ tokens : List Token, tokens.map Token.bare = value.bareTokens →
    ∃ token rest, tokens = token :: rest ∧ BeginsItem token
  reads : ∀ tokens : List Token, tokens.map Token.bare = value.bareTokens →
    ∀ next rest errors, EndsCode next → ∃ node needed, needed ≤ bound ∧ node.Gives value ∧
      Needs (fun levels => phrase levels (.expression 0)) needed
        (.before tokens next rest errors) node ⟨next, rest, errors⟩

variable {bound : Nat} {value : Value}

theorem endsCode_of_kind (kind : next.kind = .comma ∨ next.kind = .rparen ∨ next.kind = .colon) :
    EndsCode next := by
  refine ⟨⟨?_, ?_, ?_⟩, ?_⟩ <;> rcases kind with kind | kind | kind <;> rw [kind] <;>
    first | rfl | exact nofun

theorem ReadsValue.readsItem (reads : ReadsValue bound value) :
    ReadsItem bound value.bareTokens (Node.Gives · value) where
  begins := reads.begins
  reads tokens same next rest errors kind := by
    obtain ⟨node, needed, le, gives, needs⟩ := reads.reads tokens same next rest errors
      (endsCode_of_kind (kind.imp_right .inl))
    obtain ⟨token, others, rfl, begins⟩ := reads.begins tokens same
    have noColon : next.kind ≠ .colon := by
      rcases kind with kind | kind <;> rw [kind] <;> exact nofun
    exact ⟨node, needed, le, gives, needs_codeItem begins noColon needs⟩

/-- What is read of an item after its first expression. -/
def itemFrom (deeper : Phrase → Reading Node) (expr : Node) : Reading Node := do
  if ← isAt .colon then
    let _ ← advance
    let value ← deeper (.expression 0)
    let place : Place := { range := .cover expr.range value.range }
    match expr with
    | .ident name _ => return .named name value place
    | key => return .keyed key value place
  else return expr

theorem codeItem_from {deeper : Phrase → Reading Node} (noDots : token.kind ≠ .dotDot) :
    codeItem deeper ⟨token, tokens, errors⟩ =
      (deeper (.expression 0) >>= itemFrom deeper) ⟨token, tokens, errors⟩ := by
  unfold codeItem
  rw [isAt_bind, decide_eq_false noDots, if_neg Bool.false_ne_true]
  rfl

theorem needs_entry {colon : Token} {last : Cursor} (isName : token.kind = .ident)
    (isColon : colon.kind = .colon) (needs : Needs (fun levels => phrase levels (.expression 0))
      needed (.before tokens next rest errors) node last) :
    ∃ place, Needs (fun levels => codeItem (phrase levels)) (max 1 needed)
      ⟨token, colon :: (tokens ++ next :: rest), errors⟩ (.named token.value node place) last := by
  have key : Needs (fun levels => phrase levels (.expression 0)) 1
      ⟨token, colon :: (tokens ++ next :: rest), errors⟩
      (.ident token.value ⟨token.range, .detached⟩) ⟨colon, tokens ++ next :: rest, errors⟩ :=
    needs_leaf ⟨token, _, .ident isName⟩ (endsCode_of_kind (.inr (.inr isColon)))
  have entry : Needs (fun levels => phrase levels (.expression 0) >>= fun value =>
        pure (Node.named token.value value ⟨.cover token.range value.range, .detached⟩)) needed
      (.before tokens next rest errors)
      (.named token.value node ⟨.cover token.range node.range, .detached⟩) last :=
    needs.ending (fun _ => rfl) rfl
  have after : Needs (fun levels =>
      itemFrom (phrase levels) (.ident token.value ⟨token.range, .detached⟩)) needed
      ⟨colon, tokens ++ next :: rest, errors⟩
      (.named token.value node ⟨.cover token.range node.range, .detached⟩) last := by
    refine entry.later (fun levels => ?_) (Cursor.errors_before _ _ _ _)
    unfold itemFrom
    rw [isAt_bind, isColon, decide_eq_true rfl, if_pos rfl, advance_bind]
    exact congrArg _ (Cursor.next_before colon tokens next rest errors)
  have noDots : token.kind ≠ .dotDot := by
    rw [isName]
    exact nofun
  exact ⟨_, (key.bind after).later (fun _ => codeItem_from noDots) rfl⟩

theorem ReadsValue.readsEntry (reads : ReadsValue bound value) (some_level : 1 ≤ bound)
    (key : String) : ReadsItem bound ((.ident, key) :: (.colon, ":") :: value.bareTokens)
      (Node.GivesEntry · (key, value)) where
  begins tokens same := by
    obtain ⟨token, others, rfl, isKey, -⟩ := List.map_eq_cons_iff.mp same
    have kind : token.kind = .ident := Token.kind_of_bare isKey
    refine ⟨token, others, rfl, ?_⟩
    unfold BeginsItem
    simp [kind]
  reads tokens same next rest errors kind := by
    obtain ⟨token, others, rfl, isKey, same⟩ := List.map_eq_cons_iff.mp same
    obtain ⟨colon, others, rfl, isColon, same⟩ := List.map_eq_cons_iff.mp same
    obtain ⟨node, needed, le, gives, needs⟩ := reads.reads others same next rest errors
      (endsCode_of_kind (kind.imp_right .inl))
    obtain ⟨place, whole⟩ :=
      needs_entry (Token.kind_of_bare isKey) (Token.kind_of_bare isColon) needs
    have named : token.value = key := Token.value_of_bare isKey
    rw [named] at whole
    exact ⟨.named key node place, max 1 needed, Nat.max_le.mpr ⟨some_level, le⟩,
      ⟨node, place, rfl, gives⟩, whole⟩

/-- Whether some tokens in parentheses are read as a tree that gives a value, in so many
levels. -/
def ReadsGroup (bound : Nat) (bare : List (TokenKind × String)) (value : Value) : Prop :=
  ∀ (opening closing : Token) (tokens : List Token) (next : Token) (rest : List Token)
    (errors : List SyntaxError), closing.kind = .rparen → tokens.map Token.bare = bare →
    ∃ node needed, needed ≤ bound ∧ node.Gives value ∧
      Needs (fun levels => codeGroup (phrase levels)) needed
        ⟨opening, tokens ++ closing :: next :: rest, errors⟩ node ⟨next, rest, errors⟩

theorem ReadsValue.readsGroup (reads : ReadsValue bound value) :
    ReadsGroup bound value.bareTokens value := by
  intro opening closing tokens next rest errors kind same
  obtain ⟨node, needed, le, gives, needs⟩ := reads.reads tokens same closing (next :: rest) errors
    (endsCode_of_kind (.inr (.inl kind)))
  obtain ⟨token, others, rfl, begins⟩ := reads.begins tokens same
  have noColon : closing.kind ≠ .colon := by
    rw [kind]
    exact nofun
  have items := needs_codeItems begins kind (needs_codeItem begins noColon needs)
  exact ⟨_, needed, le, gives.parenthesized,
    needs_codeGroup_of_items kind begins items (groupOf_parenthesized gives _)⟩

theorem needs_codeGroup_of_begins {nodes : List Node} {flag : Bool}
    (begins : ∃ token others, tokens = token :: others ∧ BeginsItem token)
    (kind : closing.kind = .rparen) (needs : Needs (fun levels => codeItems (phrase levels)) needed
      (.before tokens closing (next :: rest) errors) (nodes, flag) ⟨closing, next :: rest, errors⟩)
    (grouped : groupOf nodes flag ⟨.cover opening.range closing.range, .detached⟩ = pure node) :
    Needs (fun levels => codeGroup (phrase levels)) needed
      ⟨opening, tokens ++ closing :: next :: rest, errors⟩ node ⟨next, rest, errors⟩ := by
  obtain ⟨token, others, rfl, begins⟩ := begins
  exact needs_codeGroup_of_items kind begins needs grouped

theorem readsGroup_array {items : List Value}
    (each : ∀ item ∈ items, ReadsValue bound item) :
    ReadsGroup bound (joined [(.comma, ",")] [(.comma, ",")] (items.map Value.bareTokens))
      (.array items) := by
  intro opening closing tokens next rest errors kind same
  match items with
  | [] =>
      have empty : tokens = [] := List.map_eq_nil_iff.mp same
      subst empty
      refine ⟨.array [] ⟨.cover opening.range closing.range, .detached⟩, 0, Nat.zero_le _,
        .array .nil, .of_read (fun levels => ?_) rfl⟩
      unfold codeGroup
      rw [advance_bind]
      dsimp only [Cursor.next, List.nil_append]
      rw [isAt_bind, kind]
      rfl
  | [item] =>
      obtain ⟨begins, node, needed, le, gives, needs⟩ := exists_codeItems_lone
        (each item List.mem_cons_self).readsItem kind same (next :: rest) errors
      have all_give : List.Forall₂ Node.Gives [node] [item] := .cons gives .nil
      exact ⟨_, needed, le, .array all_give, needs_codeGroup_of_begins begins kind needs
        (groupOf_array all_give (fun _ => rfl) _)⟩
  | first :: second :: others =>
      obtain ⟨begins, nodes, needed, le, give, needs⟩ := exists_codeItems
        (fun item member => (each item member).readsItem) (List.cons_ne_nil _ _) kind same
        (next :: rest) errors
      have all_give : List.Forall₂ Node.Gives nodes (first :: second :: others) := give.flip
      have noLone : nodes.length = 1 → false = true := by
        rw [all_give.length_eq]
        simp
      exact ⟨_, needed, le, .array all_give, needs_codeGroup_of_begins begins kind needs
        (groupOf_array all_give noLone _)⟩

theorem readsGroup_dict {entries : Entries Value} (nonempty : entries ≠ [])
    (distinct : entries.keys.Nodup) (each : ∀ entry ∈ entries, ReadsValue bound entry.2)
    (some_level : 1 ≤ bound) :
    ReadsGroup bound ([(.comma, ",")].intercalate (entries.map fun entry =>
      (.ident, entry.1) :: (.colon, ":") :: entry.2.bareTokens)) (.dict entries) := by
  intro opening closing tokens next rest errors kind same
  have each_item : ∀ entry ∈ entries,
      ReadsItem bound ((.ident, entry.1) :: (.colon, ":") :: entry.2.bareTokens)
        (Node.GivesEntry · entry) :=
    fun entry member => (each entry member).readsEntry some_level entry.1
  obtain ⟨begins, nodes, needed, le, give, needs⟩ :=
    exists_codeItems each_item nonempty kind same (next :: rest) errors
  have all_give : List.Forall₂ Node.GivesEntry nodes entries := give.flip
  have some_node : nodes ≠ [] := by
    rintro rfl
    exact nonempty (List.forall₂_nil_left_iff.mp all_give)
  exact ⟨_, needed, le, .dict all_give distinct, needs_codeGroup_of_begins begins kind needs
    (groupOf_dict all_give some_node _)⟩

theorem readsGroup_dict_nil : ReadsGroup bound [(.colon, ":")] (.dict []) := by
  intro opening closing tokens next rest errors kind same
  obtain ⟨colon, others, rfl, isColon, same⟩ := List.map_eq_cons_iff.mp same
  have alone : others = [] := List.map_eq_nil_iff.mp same
  subst alone
  have colon_kind : colon.kind = .colon := Token.kind_of_bare isColon
  have noClose : colon.kind ≠ .rparen := by
    rw [colon_kind]
    exact nofun
  have closes : (⟨colon, closing :: next :: rest, errors⟩ : Cursor).peek.kind = .rparen := kind
  refine ⟨.dict [] ⟨.cover opening.range closing.range, .detached⟩, 0, Nat.zero_le _,
    .dict .nil .nil, .of_read (fun levels => ?_) rfl⟩
  unfold codeGroup
  rw [advance_bind]
  dsimp only [Cursor.next, List.cons_append, List.nil_append]
  rw [isAt_bind, decide_eq_false noClose, if_neg Bool.false_ne_true, isAt_bind, peek_bind,
    decide_eq_true colon_kind, decide_eq_true closes]
  rfl

theorem ReadsGroup.readsValue {bare : List (TokenKind × String)}
    (written : value.bareTokens = Value.grouped bare) (reads : ReadsGroup bound bare value) :
    ReadsValue (bound + 1) value where
  begins tokens same := by
    rw [written] at same
    obtain ⟨opening, others, rfl, isOpening, -⟩ := List.map_eq_cons_iff.mp same
    have kind : opening.kind = .lparen := Token.kind_of_bare isOpening
    refine ⟨opening, others, rfl, ?_⟩
    unfold BeginsItem
    simp [kind]
  reads tokens same next rest errors ends := by
    rw [written] at same
    obtain ⟨opening, others, rfl, isOpening, same⟩ := List.map_eq_cons_iff.mp same
    obtain ⟨inner, last, rfl, same_inner, same_last⟩ := List.map_eq_append_iff.mp same
    obtain ⟨closing, others, rfl, isClosing, none_left⟩ := List.map_eq_cons_iff.mp same_last
    have none_left : others = [] := List.map_eq_nil_iff.mp none_left
    subst none_left
    obtain ⟨node, needed, le, gives, needs⟩ :=
      reads opening closing inner next rest errors (Token.kind_of_bare isClosing)
        same_inner
    refine ⟨node, needed + 1, Nat.succ_le_succ le, gives, ?_⟩
    have whole := needs_expression_of_group (Token.kind_of_bare isOpening) ends needs
    simpa [Cursor.before] using whole

theorem ReadsValue.mono {more : Nat} (reads : ReadsValue bound value) (le : bound ≤ more) :
    ReadsValue more value where
  begins := reads.begins
  reads tokens same next rest errors ends := by
    obtain ⟨node, needed, fits, gives, needs⟩ := reads.reads tokens same next rest errors ends
    exact ⟨node, needed, Nat.le_trans fits le, gives, needs⟩

theorem beginsItem_leaf (leaf : CodeLeaf) : BeginsItem leaf.token := by
  obtain ⟨token, tokens, same, begins⟩ := beginsItem_tokens ⟨⟨[], leaf⟩, []⟩
  cases same
  exact begins

theorem readsValue_of_leaf {bare : TokenKind × String} (written : value.bareTokens = [bare])
    (leaf : ∀ token : Token, token.bare = bare →
      ∃ node, Leaf .operand token node ∧ node.Gives value) : ReadsValue 1 value where
  begins tokens same := by
    rw [written] at same
    obtain ⟨token, others, rfl, isLeaf, -⟩ := List.map_eq_cons_iff.mp same
    obtain ⟨node, leaf, -⟩ := leaf token isLeaf
    exact ⟨token, others, rfl, beginsItem_leaf ⟨token, node, leaf⟩⟩
  reads tokens same next rest errors ends := by
    rw [written] at same
    obtain ⟨token, others, rfl, isLeaf, none_left⟩ := List.map_eq_cons_iff.mp same
    have none_left : others = [] := List.map_eq_nil_iff.mp none_left
    subst none_left
    obtain ⟨node, leaf, gives⟩ := leaf token isLeaf
    exact ⟨node, 1, Nat.le_refl 1, gives, needs_leaf ⟨token, node, leaf⟩ ends⟩

theorem leaf_int {token : Token} {size : Nat} (writable : Decimal.isWritable size = true)
    (bare : token.bare = (.int, toString size)) :
    Leaf .operand token (.int size ⟨token.range, .detached⟩) := by
  refine .int (Token.kind_of_bare bare) ?_
  have written : token.value = toString size := Token.value_of_bare bare
  rw [written, Decimal.readInteger_toString writable]

theorem readsValue_int {number : Int} (writable : Decimal.isWritable number = true) :
    ReadsValue 2 (.int number) := by
  cases number with
  | ofNat size =>
      exact (readsValue_of_leaf rfl fun token bare =>
        ⟨_, leaf_int writable bare, .int size⟩).mono (Nat.le_succ 1)
  | negSucc size =>
      constructor
      · intro tokens same
        obtain ⟨mark, others, rfl, isMark, -⟩ := List.map_eq_cons_iff.mp same
        have kind : mark.kind = .minus := Token.kind_of_bare isMark
        refine ⟨mark, others, rfl, ?_⟩
        unfold BeginsItem
        simp [kind]
      · intro tokens same next rest errors ends
        obtain ⟨mark, others, rfl, isMark, same⟩ := List.map_eq_cons_iff.mp same
        obtain ⟨token, others, rfl, isSize, none_left⟩ := List.map_eq_cons_iff.mp same
        have none_left : others = [] := List.map_eq_nil_iff.mp none_left
        subst none_left
        have minus : UnaryOp.ofKind? mark.kind = some .negate := by
          rw [show mark.kind = .minus from Token.kind_of_bare isMark]
          rfl
        have gives : (Node.int (size + 1) ⟨token.range, .detached⟩).Gives
            (.int ((size + 1 : Nat) : Int)) := .int (size + 1)
        exact ⟨_, 2, Nat.le_refl 2, gives.negate,
          needs_negative ⟨.negate, mark, minus⟩ ⟨token, _, leaf_int writable isSize⟩ ends⟩

end Grammar

theorem Value.IsPlain.readsValue {value : Value} (plain : value.IsPlain)
    (writable : value.IsWritable) :
    ReadsValue (value.nesting + 2) value := by
  -- On the value. An item nests less deeply than the value it is in, so one bound fits all items.
  induction plain with
  | none =>
      exact (readsValue_of_leaf rfl fun token bare =>
        ⟨_, .noneLit (Token.kind_of_bare bare), .none⟩).mono (by omega)
  | auto =>
      exact (readsValue_of_leaf rfl fun token bare =>
        ⟨_, .autoLit (Token.kind_of_bare bare), .auto⟩).mono (by omega)
  | bool value =>
      have leaf : ∀ token : Token, token.bare = (.bool, if value then "true" else "false") →
          ∃ node, Leaf .operand token node ∧ node.Gives (.bool value) := by
        intro token bare
        have truth : decide (token.value = "true") = value := by
          rw [Token.value_of_bare bare]
          cases value <;> rfl
        exact ⟨_, .bool (Token.kind_of_bare bare), truth ▸ .bool _⟩
      exact (readsValue_of_leaf (by cases value <;> rfl) leaf).mono (by omega)
  | int value => exact readsValue_int (writable value List.mem_cons_self)
  | str text =>
      exact (readsValue_of_leaf rfl fun token bare =>
        ⟨_, .codeStr (Token.kind_of_bare bare), Token.value_of_bare bare ▸ .str _⟩).mono
          (by omega)
  | @array items plain induction =>
      have each : ∀ item ∈ items, ReadsValue (nestingOfItems items + 2) item :=
        fun item member => (induction item member (writable.item member)).mono
          (Nat.add_le_add_right (Nat.le_of_lt_succ (nesting_lt_of_mem_items member)) 2)
      refine (readsGroup_array each).readsValue ?_
      rw [bareTokens, tokensOfItems_eq]
  | @dict entries distinct names plain induction =>
      by_cases empty : entries = []
      · subst empty
        exact readsGroup_dict_nil.readsValue rfl
      · have each : ∀ entry ∈ entries, ReadsValue (nestingOfEntries entries + 2) entry.2 :=
          fun entry member => (induction entry member (writable.entry member)).mono
            (Nat.add_le_add_right (Nat.le_of_lt_succ (nesting_lt_of_mem_entries member)) 2)
        exact (readsGroup_dict empty distinct each (by omega)).readsValue (bareTokens_dict empty)

end EquationMap
