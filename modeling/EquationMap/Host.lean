import EquationMap.Text.Quoted

namespace EquationMap

abbrev Path := List String

namespace Path

def toText (path : Path) : String :=
  "/" ++ "/".intercalate path

def follow (path : Path) (name : String) : Path :=
  if name = "" ∨ name = "." then path
  else if name = ".." then path.dropLast
  else path ++ [name]

/-- The path that a text names, relative to a directory unless it starts at the root. -/
def resolve (directory : Path) (text : String) : Path :=
  (text.splitOn "/").foldl follow (if text.startsWith "/" then [] else directory)

def outward : Path → List Path
  | [] => [[]]
  | name :: rest => (outward rest).map (name :: ·) ++ [[]]

/-- How a text that names a path is shown: without empty names and those that stay in place. -/
def shown (text : String) : String :=
  let root :=
    if text.startsWith "//" ∧ !text.startsWith "///" then "//"
    else if text.startsWith "/" then "/"
    else ""
  let names := (text.splitOn "/").filter fun name => name ≠ "" ∧ name ≠ "."
  if root = "" ∧ names = [] then "." else root ++ "/".intercalate names

end Path

def Path.isUnnamable (text : String) : Bool :=
  text.toList.contains '\x00'

def Path.isLongName (name : String) : Bool :=
  255 < name.utf8ByteSize

/-- Whether a text is longer than 4095 bytes, which is too long for a path. -/
def Path.isLong (text : String) : Bool :=
  4095 < text.utf8ByteSize

inductive Found where
  | file (content : String)
  | directory
  | missing
  | blocked
  | tooLong
  | unnamable
  deriving DecidableEq

inductive FileFault where
  | missing (path : String)
  | blocked (path : String)
  | directory (path : String)
  | tooLong (path : String)
  | unnamable
  deriving DecidableEq

def FileFault.message : FileFault → String
  | missing path => "[Errno 2] No such file or directory: " ++ Text.quoted path
  | blocked path => "[Errno 20] Not a directory: " ++ Text.quoted path
  | directory path => "[Errno 21] Is a directory: " ++ Text.quoted path
  | tooLong path => "[Errno 36] File name too long: " ++ Text.quoted path
  | unnamable => "embedded null byte"

namespace Found

def fault (path : String) : Found → FileFault
  | directory => .directory path
  | blocked => .blocked path
  | tooLong => .tooLong path
  | unnamable => .unnamable
  | file _ | missing => .missing path

def content (path : String) : Found → Except FileFault String
  | file content => .ok content
  | found => .error (found.fault path)

end Found

/-- Access to the surroundings. -/
class Host (m : Type → Type) where
  directory : m Path
  find : String → m Found
  input : m String
  print : String → m Unit
  warn : String → m Unit
  log : String → m Unit
  store : String → String → m (Except FileFault Unit)

end EquationMap
