import EquationMap.Syntax.Node
import EquationMap.Syntax.Token
import EquationMap.Syntax.Fault

namespace EquationMap

/-- A phrase that takes up a level of nesting. -/
inductive Phrase where
  | atom (stops : List TokenKind)
  /-- The atom after a script mark; scripts of the kind `stop` belong to an outer atom. -/
  | script (mark : ByteRange) (stops : List TokenKind) (stop : Option ScriptSide)
  | denominator (num : Node) (slash : ByteRange) (stops : List TokenKind)
  /-- The rest of an expression of code from a call, an attached block or a field on. -/
  | arguments (callee : Node)
  | attachedBlock (callee : Node)
  | field (target : Node)
  | expression (power : Nat)
  | operand (lhs : Node) (op : BinaryOp) (mark : ByteRange) (power : Nat)

def ScriptSide.kind : ScriptSide → TokenKind
  | below => .underscore
  | above => .hat

def ScriptSide.other : ScriptSide → ScriptSide
  | below => above
  | above => below

def ScriptSide.ofKind? : TokenKind → Option ScriptSide
  | .underscore => some below
  | .hat => some above
  | _ => none

def BinaryOp.ofKind? : TokenKind → Option BinaryOp
  | .or => some or | .and => some and | .eqEq => some eq | .notEq => some ne
  | .lt => some lt | .le => some le | .gt => some gt | .ge => some ge
  | .plus => some add | .minus => some sub | .star => some mul | .slash => some div
  | _ => none

def BinaryOp.leftPower : BinaryOp → Nat
  | or => 1
  | and => 3
  | eq | ne | lt | le | gt | ge => 5
  | add | sub => 7
  | mul | div => 9

def BinaryOp.rightPower (op : BinaryOp) : Nat :=
  op.leftPower + 1

def UnaryOp.ofKind? : TokenKind → Option UnaryOp
  | .minus => some negate
  | .plus => some plus
  | .not => some not
  | _ => none

def UnaryOp.power : UnaryOp → Nat
  | negate | plus => 11
  | not => 5

end EquationMap
