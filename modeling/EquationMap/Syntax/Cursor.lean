import EquationMap.Decimal.Fault
import EquationMap.Syntax.Fault

namespace EquationMap

/-- A place in a list of tokens: the current token, those after it, and the faults found so
far, latest first. The last token of a list is never passed. -/
structure Cursor where
  current : Token
  rest : List Token
  errors : List SyntaxError

inductive Interrupt where
  | recover
  | tooDeep
  | number (fault : NumberFault)

/-- Reads from a list of tokens. The place reached is kept when reading is interrupted. -/
abbrev Reading := EStateM Interrupt Cursor

namespace Cursor

def ofTokens (tokens : TokenList) : Cursor :=
  match tokens.tokens with
  | [] => ⟨tokens.last, [], []⟩
  | token :: rest => ⟨token, rest ++ [tokens.last], []⟩

def next (cursor : Cursor) : Cursor :=
  match cursor.rest with
  | [] => cursor
  | token :: rest => { cursor with current := token, rest }

def peek (cursor : Cursor) : Token :=
  cursor.rest.headD cursor.current

def report (cursor : Cursor) (fault : SyntaxFault) (range : ByteRange) : Cursor :=
  { cursor with errors := ⟨fault, range⟩ :: cursor.errors }

def endsSequence (cursor : Cursor) (stops : List TokenKind) : Bool :=
  cursor.current.kind = .eof || stops.contains cursor.current.kind

end Cursor

namespace Reading

def current : Reading Token := fun cursor => .ok cursor.current cursor

def peek : Reading Token := fun cursor => .ok cursor.peek cursor

def remaining : Reading Nat := fun cursor => .ok cursor.rest.length cursor

def isAt (kind : TokenKind) : Reading Bool := fun cursor =>
  .ok (cursor.current.kind = kind) cursor

def endsSequence (stops : List TokenKind) : Reading Bool := fun cursor =>
  .ok (cursor.endsSequence stops) cursor

def advance : Reading Token := fun cursor => .ok cursor.current cursor.next

def report (fault : SyntaxFault) (range : ByteRange) : Reading Unit := fun cursor =>
  .ok () (cursor.report fault range)

def interrupt (reason : Interrupt) : Reading α := fun cursor => .error reason cursor

def range (start stop : Nat) : Reading ByteRange := fun cursor =>
  match ByteRange.ofOffsets start stop with
  | .ok range => .ok range cursor
  | .error fault => .error (.number fault) cursor

/-- Passes a token of the given kind; any other token is reported and stays. -/
def expect (kind : TokenKind) : Reading Token := do
  let token ← current
  if token.kind = kind then advance
  else
    report (.unexpected kind token.kind token.value) token.range
    return token

/-- Reads a phrase, or nothing if a fault in it can be recovered from. -/
def attempt (phrase : Reading α) : Reading (Option α) := fun cursor =>
  match phrase cursor with
  | .ok value next => .ok (some value) next
  | .error .recover next => .ok none next
  | .error reason next => .error reason next

end Reading

end EquationMap
