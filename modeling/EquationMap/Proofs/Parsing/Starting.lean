import EquationMap.Proofs.Parsing.Reading
import EquationMap.Syntax.Grammar

namespace EquationMap

namespace Reading

def Makes (Good : α → Prop) (reading : Reading α) : Prop :=
  ∀ start value last, reading start = .ok value last → Good value

/-- Whether a reading from a token on gives only nodes that start with that token or a later one. -/
def StartsAt (token : Token) (reading : Reading Node) : Prop :=
  ∀ start node last, start.current = token → reading start = .ok node last →
    ∃ first ∈ start.tokens, node.range.start = first.range.start

section

variable {first : Reading α} {next : α → Reading β} {Mid : α → Prop} {Good : β → Prop}

theorem Makes.bind (head : Makes Mid first) (tail : ∀ value, Mid value → Makes Good (next value)) :
    Makes Good (first >>= next) := by
  intro start value last read
  rw [bind_apply] at read
  split at read
  · rename_i reached
    exact tail _ (head _ _ _ reached) _ _ _ read
  · cases read

theorem Makes.after (tail : ∀ value, Makes Good (next value)) : Makes Good (first >>= next) :=
  Makes.bind (fun _ _ _ _ => trivial : Makes (fun _ => True) first) fun value _ => tail value

theorem Makes.pure {value : α} (good : Mid value) : Makes Mid (Pure.pure value : Reading α) := by
  rintro _ _ _ ⟨⟩
  exact good

theorem Makes.interrupt {reason : Interrupt} : Makes Mid (interrupt reason : Reading α) := by
  rintro _ _ _ ⟨⟩

theorem Makes.ite {condition : Prop} [Decidable condition] {left right : Reading α}
    (holds : Makes Mid left) (fails : Makes Mid right) :
    Makes Mid (if condition then left else right) := by
  split
  · exact holds
  · exact fails

end

namespace StartsAt

variable {token : Token} {next : α → Reading Node}

theorem of_makes {reading : Reading Node}
    (makes : Makes (fun node => node.range.start = token.range.start) reading) :
    StartsAt token reading := by
  rintro start node last rfl read
  exact ⟨start.current, List.mem_cons_self, makes _ _ _ read⟩

theorem looking {look : Cursor → α} (each : ∀ value, StartsAt token (next value)) :
    StartsAt token ((fun cursor => .ok (look cursor) cursor : Reading α) >>= next) :=
  fun start node last here read => each (look start) start node last here read

theorem current {next : Token → Reading Node} (each : StartsAt token (next token)) :
    StartsAt token (current >>= next) := by
  rintro start node last rfl read
  exact each start node last rfl read

theorem advance {next : Token → Reading Node}
    (makes : Makes (fun node => node.range.start = token.range.start) (next token)) :
    StartsAt token (advance >>= next) := by
  rintro start node last rfl read
  exact ⟨start.current, List.mem_cons_self, makes _ _ _ read⟩

theorem passing {next : Token → Reading Node} (each : ∀ value other, StartsAt other (next value)) :
    StartsAt token (Reading.advance >>= next) := by
  intro start node last _ read
  obtain ⟨first, member, starts⟩ := each start.current _ start.next node last rfl read
  exact ⟨first, start.reaches_next.tokens.subset member, starts⟩

theorem ite {condition : Prop} [Decidable condition] {left right : Reading Node}
    (holds : StartsAt token left) (fails : StartsAt token right) :
    StartsAt token (if condition then left else right) := by
  split
  · exact holds
  · exact fails

theorem bind {first : Reading Node} {next : Node → Reading Node} (head : StartsAt token first)
    (tail : ∀ left, Makes (fun node => node.range.start = left.range.start) (next left)) :
    StartsAt token (first >>= next) := by
  intro start node last here read
  rw [bind_apply] at read
  split at read
  · rename_i reached
    obtain ⟨first, member, starts⟩ := head _ _ _ here reached
    exact ⟨first, member, (tail _ _ _ _ read).trans starts⟩
  · cases read

end StartsAt

end Reading

open Reading

/-- Whether a phrase that is read from some tokens may start at an offset. -/
def Phrase.MayStart (tokens : List Token) (offset : Nat) : Phrase → Prop
  | denominator left _ _ | arguments left | attachedBlock left | field left
  | operand left _ _ _ => offset = left.range.start
  | atom _ | script _ _ _ | expression _ => ∃ first ∈ tokens, offset = first.range.start

namespace Grammar

/-- Whether the phrases of a level start in their places. -/
class StartsInPlace (deeper : Phrase → Reading Node) : Prop where
  started : ∀ {phrase start node last}, deeper phrase start = .ok node last →
    phrase.MayStart start.tokens node.range.start

theorem makes_primesFrom {count fuel : Nat} {range : ByteRange} :
    Makes (fun primes => primes.place.range.start = range.start) (primesFrom count range fuel) := by
  induction fuel generalizing count range with
  | zero => exact .pure rfl
  | succ fuel ih => exact .after fun _ => .ite (.after fun _ => ih) (.pure rfl)

theorem primes_startsAt {token : Token} : StartsAt token (.primes <$> primes) := by
  change StartsAt token (primes >>= fun marks => pure (.primes marks))
  unfold primes
  simp only [bind_assoc]
  exact .current (.of_makes (.after fun _ => makes_primesFrom.bind fun _ starts => .pure starts))

theorem groupOf_makes {items : List Node} {afterComma : Bool} {place : Place} :
    Makes (fun node => node.range.start = place.range.start) (groupOf items afterComma place) := by
  unfold groupOf
  refine .ite (.ite (.pure rfl) (.after fun _ => .pure rfl)) ?_
  split <;> exact .pure rfl

section

variable (deeper : Phrase → Reading Node) {token : Token}

theorem delimited_startsAt {closer : TokenKind} : StartsAt token (delimited deeper closer) := by
  refine .advance (.after fun _ => .after fun _ => .ite ?_ ?_)
  · exact .after fun _ => .after fun _ => .after fun _ => .pure rfl
  · exact .after fun _ => .after fun _ => .after fun _ => .after fun _ => .pure rfl

theorem mathCall_startsAt : StartsAt token (mathCall deeper) := by
  refine .advance (.after fun _ => .after fun _ => .after fun _ => .after fun _ => .ite ?_ ?_)
  · exact .after fun _ => .pure rfl
  · exact .after fun _ => .after fun _ => .pure rfl

theorem contentBlock_startsAt : StartsAt token (contentBlock deeper) :=
  .advance (.after fun _ => .after fun _ => .pure rfl)

theorem codeGroup_startsAt : StartsAt token (codeGroup deeper) := by
  refine .advance (.after fun _ => .ite (.after fun _ => .pure rfl) ?_)
  refine .after fun _ => .after fun _ => .ite (.after fun _ => .after fun _ => .pure rfl) ?_
  exact .after fun _ => .after fun _ => groupOf_makes

theorem codeAtom_startsAt : StartsAt token (codeAtom deeper) := by
  refine .current ?_
  dsimp only
  split
  case h_2 =>
    refine .advance ?_
    split
    · exact .pure rfl
    · exact .interrupt
  case h_3 =>
    refine .advance ?_
    split
    · exact .pure rfl
    · exact .interrupt
  case h_8 => exact codeGroup_startsAt deeper
  case h_9 => exact contentBlock_startsAt deeper
  case h_10 => exact .of_makes (.after fun _ => .interrupt)
  all_goals exact .advance (.pure rfl)

theorem codeCall_makes {callee : Node} :
    Makes (fun node => node.range.start = callee.range.start) (codeCall deeper callee) :=
  .after fun _ => .after fun _ => .after fun _ => .after fun _ => .after fun _ => .after fun _ =>
    .pure rfl

variable [StartsInPlace deeper]

theorem fractionFrom_makes {stops : List TokenKind} (num : Node) :
    Makes (fun node => node.range.start = num.range.start) (fractionFrom deeper stops num) := by
  refine .after fun _ => .ite (.after fun _ => .after fun _ => .ite ?_ ?_) (.pure rfl)
  · exact .after fun _ => .pure rfl
  · exact fun _ _ _ => StartsInPlace.started

theorem attachment_startsAt {stops : List TokenKind} {stop : Option ScriptSide} :
    StartsAt token (attachment deeper stops stop) := by
  have atom : StartsAt token (deeper (.atom stops)) := fun _ _ _ _ => StartsInPlace.started
  refine atom.bind fun base => .after fun _ => ?_
  have attached (marks : Option Primes) : Makes (fun node => node.range.start = base.range.start)
      (do
        let scripts ← scripts deeper stops stop
        if marks.isNone ∧ scripts.last.isNone then return base
        else
          let primesEnd := (marks.map fun marks => marks.place.range).getD base.range
          let last := scripts.last.getD primesEnd
          return .attach base scripts.bottom scripts.top marks
            { range := .cover base.range last }) :=
    .after fun _ => .ite (.pure rfl) (.pure rfl)
  exact .ite (.after fun _ => attached _) (.after fun _ => attached _)

theorem fraction_startsAt {stops : List TokenKind} : StartsAt token (fraction deeper stops) :=
  (attachment_startsAt deeper).bind fun num => fractionFrom_makes deeper num

theorem codeTail_makes (expr : Node) :
    Makes (fun node => node.range.start = expr.range.start) (codeTail deeper expr) := by
  refine .after fun _ => .ite (fun _ _ _ => StartsInPlace.started) ?_
  refine .ite (fun _ _ _ => StartsInPlace.started) ?_
  exact .ite (fun _ _ _ => StartsInPlace.started) (.pure rfl)

theorem embedded_startsAt : StartsAt token (do codeTail deeper (← codeAtom deeper)) :=
  (codeAtom_startsAt deeper).bind fun expr => codeTail_makes deeper expr

theorem expressionFrom_makes {power : Nat} (lhs : Node) :
    Makes (fun node => node.range.start = lhs.range.start) (expressionFrom deeper power lhs) := by
  refine .after fun _ => ?_
  split
  · exact .pure rfl
  · exact .ite (.pure rfl) (.after fun _ _ _ _ => StartsInPlace.started)

theorem codeOperand_startsAt : StartsAt token (codeOperand deeper) := by
  refine .current ?_
  split
  · exact .advance (.after fun _ => .pure rfl)
  · exact embedded_startsAt deeper

theorem atom_startsAt {stops : List TokenKind} : StartsAt token (atom deeper stops) := by
  refine .current ?_
  dsimp only
  have plain : StartsAt token (do
      let _ ← Reading.advance
      return .text token.value { range := token.range }) :=
    .advance (.pure rfl)
  split
  case h_1 => exact .looking fun _ => .ite (mathCall_startsAt deeper) (.advance (.pure rfl))
  case h_4 =>
    refine .advance (.after fun _ => .ite (.after fun _ => .pure rfl) ?_)
    exact .after fun _ => .pure rfl
  case h_5 => exact primes_startsAt
  case h_8 => exact .passing fun _ _ => embedded_startsAt deeper
  case h_9 | h_10 | h_11 => exact delimited_startsAt deeper
  case h_12 => exact .looking fun _ => .ite (delimited_startsAt deeper) plain
  case h_13 | h_14 => exact .of_makes (.after fun _ => .after fun _ => .interrupt)
  all_goals exact .advance (.pure rfl)

theorem body_mayStart {phrase : Phrase} {start last : Cursor} {node : Node}
    (read : body deeper phrase start = .ok node last) :
    phrase.MayStart start.tokens node.range.start := by
  cases phrase with
  | atom stops => exact atom_startsAt deeper _ _ _ rfl read
  | script mark stops stop => exact attachment_startsAt deeper _ _ _ rfl read
  | expression power =>
      exact (codeOperand_startsAt deeper).bind (fun lhs => expressionFrom_makes deeper lhs) _ _ _
        rfl read
  | denominator num slash stops =>
      have makes : Makes (fun node => node.range.start = num.range.start)
          (body deeper (.denominator num slash stops)) :=
        .after fun denom => fractionFrom_makes deeper (.frac num denom _)
      exact makes _ _ _ read
  | arguments callee =>
      have makes : Makes (fun node => node.range.start = callee.range.start)
          (body deeper (.arguments callee)) :=
        (codeCall_makes deeper).bind fun call starts => starts ▸ codeTail_makes deeper call
      exact makes _ _ _ read
  | attachedBlock callee =>
      have makes : Makes (fun node => node.range.start = callee.range.start)
          (body deeper (.attachedBlock callee)) :=
        .after fun block => codeTail_makes deeper (.call callee [block] _ _)
      exact makes _ _ _ read
  | field target =>
      have makes : Makes (fun node => node.range.start = target.range.start)
          (body deeper (.field target)) :=
        .after fun _ => .after fun name => codeTail_makes deeper (.field target name.value _)
      exact makes _ _ _ read
  | operand lhs op mark power =>
      have makes : Makes (fun node => node.range.start = lhs.range.start)
          (body deeper (.operand lhs op mark power)) :=
        .after fun rhs => expressionFrom_makes deeper (.binary lhs op rhs _)
      exact makes _ _ _ read

end

instance (levels : Nat) : StartsInPlace (phrase levels) where
  started := by
    induction levels with
    | zero =>
        intro phrase start node last read
        cases read
    | succ levels induction =>
        intro phrase start node last read
        have : StartsInPlace (Grammar.phrase levels) := ⟨induction⟩
        exact body_mayStart (Grammar.phrase levels) read

end Grammar

end EquationMap
