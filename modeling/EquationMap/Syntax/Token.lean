import EquationMap.Source.ByteRange

namespace EquationMap

inductive TokenKind where
  | text | ident | shorthand | string | escape | root
  | hat | underscore | slash | prime | amp | linebreak | hash
  | lparen | rparen | lbracket | rbracket | lbrace | rbrace | bar
  | comma | semicolon | colon | dot | dotDot
  | int | float | bool | none | auto
  | plus | minus | star | eqEq | notEq | lt | le | gt | ge | and | or | not
  | eof
  deriving DecidableEq

def TokenKind.name : TokenKind → String
  | text => "TEXT" | ident => "IDENT" | shorthand => "SHORTHAND" | string => "STRING"
  | escape => "ESCAPE" | root => "ROOT" | hat => "HAT" | underscore => "UNDERSCORE"
  | slash => "SLASH" | prime => "PRIME" | amp => "AMP" | linebreak => "LINEBREAK"
  | hash => "HASH" | lparen => "LPAREN" | rparen => "RPAREN" | lbracket => "LBRACKET"
  | rbracket => "RBRACKET" | lbrace => "LBRACE" | rbrace => "RBRACE" | bar => "BAR"
  | comma => "COMMA" | semicolon => "SEMICOLON" | colon => "COLON" | dot => "DOT"
  | dotDot => "DOT_DOT" | int => "INT" | float => "FLOAT" | bool => "BOOL" | none => "NONE"
  | auto => "AUTO" | plus => "PLUS" | minus => "MINUS" | star => "STAR" | eqEq => "EQ_EQ"
  | notEq => "NOT_EQ" | lt => "LT" | le => "LE" | gt => "GT" | ge => "GE" | and => "AND"
  | or => "OR" | not => "NOT" | eof => "EOF"

def TokenKind.closer? : TokenKind → Option TokenKind
  | lparen => some rparen
  | lbracket => some rbracket
  | lbrace => some rbrace
  | _ => .none

def TokenKind.isOpener (kind : TokenKind) : Bool :=
  kind.closer?.isSome

def TokenKind.isCloser : TokenKind → Bool
  | rparen | rbracket | rbrace => true
  | _ => false

/-- A token with the text it stands for. A string token stands for its contents and an
escape for the escaped character; any other token stands for its own source. -/
structure Token where
  kind : TokenKind
  value : String
  range : ByteRange
  deriving DecidableEq

structure TokenList where
  tokens : List Token
  last : Token
  deriving DecidableEq

def TokenList.toList (tokens : TokenList) : List Token :=
  tokens.tokens ++ [tokens.last]

namespace Token

/-- The shorthands of mathematics and the symbols they stand for, longer ones first. -/
def shorthands : List (String × String) :=
  [("...", "…"), ("-->", "⟶"), ("<--", "⟵"), ("==>", "⟹"), ("<==", "⟸"), ("<->", "↔"),
   ("<=>", "⇔"), ("|->", "↦"), ("|=>", "⤇"), ("->", "→"), ("<-", "←"), ("=>", "⇒"),
   ("<=", "≤"), (">=", "≥"), ("!=", "≠"), (":=", "≔"), ("<<", "≪"), (">>", "≫"),
   ("~~", "≈"), ("||", "‖"), ("[|", "⟦"), ("|]", "⟧"), ("-", "−"), ("*", "∗")]

def symbolOf (shorthand : String) : String :=
  (shorthands.lookup shorthand).getD shorthand

/-- The root signs and the degrees that they write; a bare root has none. -/
def rootDegrees : List (Char × Option Nat) :=
  [('√', none), ('∛', some 3), ('∜', some 4)]

def isRootSign (c : Char) : Bool :=
  (rootDegrees.lookup c).isSome

def degreeOf (sign : String) : Option Nat :=
  match sign.toList with
  | [c] => (rootDegrees.lookup c).getD none
  | _ => none

def mathMarks : List (Char × TokenKind) :=
  [('^', .hat), ('_', .underscore), ('/', .slash), ('\'', .prime), ('&', .amp),
   ('(', .lparen), (')', .rparen), ('[', .lbracket), (']', .rbracket), ('{', .lbrace),
   ('}', .rbrace), ('|', .bar), (',', .comma), (';', .semicolon), (':', .colon)]

def keywords : List (String × TokenKind) :=
  [("true", .bool), ("false", .bool), ("none", .none), ("auto", .auto), ("and", .and),
   ("or", .or), ("not", .not)]

def codeMarks : List (String × TokenKind) :=
  [("==", .eqEq), ("!=", .notEq), ("<=", .le), (">=", .ge), ("..", .dotDot), ("<", .lt),
   (">", .gt), ("+", .plus), ("-", .minus), ("*", .star), ("/", .slash), (".", .dot),
   (",", .comma), (":", .colon), (";", .semicolon)]

end Token

end EquationMap
