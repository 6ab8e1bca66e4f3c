import EquationMap.Editor.Document
import EquationMap.Entries

namespace EquationMap.Editor

abbrev Session := Entries Document

namespace Session

def openText (session : Session) (name text : String) : Session :=
  session.put name (.ofText text)

/-- Gives a document the last of several texts, or no text if there is none. -/
def change (session : Session) (name : String) (texts : List String) : Session :=
  session.openText name (texts.getLastD "")

def close (session : Session) (name : String) : Session :=
  Entries.remove name session

def hover (session : Session) (name : String) (position : Position) : Option Hover :=
  (session.get? name).bind fun document => document.hover position

end Session

def completions : List String :=
  (Library.entries.keys).mergeSort fun left right => left ≤ right

def completionKind : Nat := 21

end EquationMap.Editor
