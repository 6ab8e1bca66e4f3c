namespace EquationMap

/-- An element of a markup document: its attributes, the text it starts with, and the
elements in it. -/
inductive Markup where
  | element (tag : String) (attributes : List (String × String)) (text : String)
      (children : List Markup)

namespace Markup

def escapedText (c : Char) : List Char :=
  if c = '&' then "&amp;".toList
  else if c = '<' then "&lt;".toList
  else if c = '>' then "&gt;".toList
  else [c]

def escapedAttribute (c : Char) : List Char :=
  if c = '"' then "&quot;".toList
  else if c = '\r' then "&#13;".toList
  else if c = '\n' then "&#10;".toList
  else if c = '\t' then "&#09;".toList
  else escapedText c

def escape (escaped : Char → List Char) (text : String) : String :=
  String.ofList (text.toList.flatMap escaped)

def attributeText (pair : String × String) : String :=
  " " ++ pair.1 ++ "=\"" ++ escape escapedAttribute pair.2 ++ "\""

mutual

/-- The document as text. An element without contents has no end tag. -/
def toText : Markup → String
  | element tag attributes text children =>
      let start := "<" ++ tag ++ String.join (attributes.map attributeText)
      if text.isEmpty && children.isEmpty then start ++ " />"
      else start ++ ">" ++ escape escapedText text ++ childTexts children ++ "</" ++ tag ++ ">"

def childTexts : List Markup → String
  | [] => ""
  | child :: rest => child.toText ++ childTexts rest

end

end Markup

end EquationMap
