import EquationMap.Host
import EquationMap.Terminal.Bare

namespace EquationMap

/-- Files and directories, streams, and whether the streams lead to a terminal. -/
structure Workspace where
  /-- Files with their contents, and directories without one. Directories around a listed
  path need not be listed. -/
  listing : List (Path × Option String)
  directory : Path
  input : String := ""
  terminal : Bool := false
  output : String := ""
  errors : String := ""

namespace Workspace

def node (workspace : Workspace) (path : Path) : Found :=
  match workspace.listing.lookup path with
  | some (some content) => .file content
  | some none => .directory
  | none =>
      if path = [] ∨ workspace.listing.any fun entry => path.isPrefixOf entry.1 then .directory
      else .missing

/-- Follows names from a path, each of which but the last must lead to a directory. -/
def walk (workspace : Workspace) : Path → List String → Except Found Path
  | path, [] => .ok path
  | path, name :: rest =>
      match workspace.node path with
      | .directory =>
          if Path.isLongName name then .error .tooLong
          else workspace.walk (path.follow name) rest
      | .file _ => .error .blocked
      | found => .error found

def follow (workspace : Workspace) (text : String) : Except Found Path :=
  if Path.isUnnamable text then .error .unnamable
  else if text = "" then .error .missing
  else if Path.isLong text then .error .tooLong
  else
    workspace.walk (if text.startsWith "/" then [] else workspace.directory)
      (text.splitOn "/")

def find (workspace : Workspace) (text : String) : Found :=
  match workspace.follow text with
  | .ok path => workspace.node path
  | .error found => found

def replace (path : Path) (content : String) :
    List (Path × Option String) → List (Path × Option String)
  | [] => [(path, some content)]
  | entry :: rest =>
      if entry.1 = path then (path, some content) :: rest
      else entry :: replace path content rest

def store (workspace : Workspace) (text content : String) : Except FileFault Workspace :=
  match workspace.follow text with
  | .error found => .error (found.fault text)
  | .ok path =>
      match workspace.node path with
      | .directory => .error (.directory text)
      | _ => .ok { workspace with listing := replace path content workspace.listing }

/-- The files of a workspace that another one does not list, by the texts of their paths. -/
def addedTo (workspace before : Workspace) : List (String × String) :=
  let added := workspace.listing.filterMap fun (path, content) =>
    if (before.listing.lookup path).isSome then none
    else content.map fun content => (path.toText, content)
  added.mergeSort fun left right => left.1 ≤ right.1

def visible (workspace : Workspace) (text : String) : String :=
  if workspace.terminal then text else Terminal.bare text

instance : Host (StateM Workspace) where
  directory := return (← get).directory
  find text := return (← get).find text
  input := return (← get).input
  print text := modify fun w => { w with output := w.output ++ w.visible text }
  warn text := modify fun w => { w with errors := w.errors ++ w.visible text }
  log text := modify fun w => { w with errors := w.errors ++ text }
  store text content := do
    match (← get).store text content with
    | .ok workspace => set workspace; return .ok ()
    | .error fault => return .error fault

end Workspace

end EquationMap
