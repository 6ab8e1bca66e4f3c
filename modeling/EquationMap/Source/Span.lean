namespace EquationMap

/-- A handle that links a syntax node or a glyph to its source. A span says nothing about
where it lies; only the file it was numbered for resolves it to a range. -/
inductive Span where
  | detached
  | numbered (file : String) (number : Int)
  deriving DecidableEq, Inhabited

namespace Span

def isDetached : Span → Bool
  | detached => true
  | numbered _ _ => false

def orElse : Span → Span → Span
  | detached, other => other
  | numbered file number, _ => numbered file number

def toText : Span → String
  | detached => "<detached>"
  | numbered file number => file ++ "#" ++ toString number

end Span

end EquationMap
