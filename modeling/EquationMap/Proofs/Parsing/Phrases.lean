import EquationMap.Proofs.Parsing.Forward
import EquationMap.Proofs.Parsing.Written

namespace EquationMap

open Grammar Reading

/-- What the current token has to be for a phrase to be read at all. -/
def Phrase.Fits (token : Token) : Phrase → Prop
  | .atom _ | .script _ _ _ | .denominator _ _ _ => token.kind ≠ .eof
  | .arguments earlier => token.kind = .lparen ∧ earlier.range.stop = token.range.start
  | .attachedBlock earlier => token.kind = .lbracket ∧ earlier.range.stop = token.range.start
  | .field _ => token.kind = .dot
  | .expression _ | .operand _ _ _ _ => True

/-- What a phrase read between two places makes. A phrase that goes on with an earlier node
makes a node that starts with that one. -/
def Phrase.Makes (node : Node) (tokens rest : List Token) : Phrase → Prop
  | .atom _ | .script _ _ _ => Written (.one .math node) tokens rest
  | .expression _ => Written (.one .code node) tokens rest
  | .denominator num _ _ => ∀ {start slash}, slash.kind = .slash →
      Written (.one .math num) start (slash :: tokens) → Written (.one .math node) start rest
  | .arguments earlier | .attachedBlock earlier | .field earlier => ∀ {start},
      Written (.one .operand earlier) start tokens →
        Written (.one .operand node) start rest ∧ ¬Attaches node.range.stop rest
  | .operand lhs op _ _ => ∀ {start mark}, BinaryOp.ofKind? mark.kind = some op →
      Written (.one .code lhs) start (mark :: tokens) → Written (.one .code node) start rest

/-- Whether phrases that are read without a fault are written in the tokens they pass. -/
def Grammar.Sound (deeper : Phrase → Reading Node) : Prop :=
  ∀ (phrase : Phrase) {cursor last : Cursor} {node : Node}, cursor.Closed →
    phrase.Fits cursor.current → deeper phrase cursor = .ok node last →
      last.errors = [] → phrase.Makes node cursor.tokens last.tokens

theorem ScriptSide.kind_of_ofKind? {kind : TokenKind} {side : ScriptSide}
    (ofKind : ScriptSide.ofKind? kind = some side) : kind = side.kind := by
  unfold ScriptSide.ofKind? at ofKind
  split at ofKind <;> cases ofKind <;> rfl

theorem Grammar.inText_of_not_endsSequence {cursor : Cursor} {stops : List TokenKind}
    (goesOn : ¬cursor.endsSequence stops = true) : cursor.current.kind ≠ .eof := by
  intro atEnd
  refine goesOn ?_
  simp [Cursor.endsSequence, atEnd]

end EquationMap
