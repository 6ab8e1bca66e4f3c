import EquationMap.Host
import EquationMap.Settings.Basic

namespace EquationMap

inductive LoadFault where
  | file (fault : FileFault)
  | settings (fault : SettingsFault)
  | notFound
  deriving DecidableEq

def settingsFile : String := "mathspan.toml"

def LoadFault.message : LoadFault → String
  | file fault => fault.message
  | settings fault => fault.message
  | notFound => "No " ++ settingsFile ++ " found in any parent directory"

namespace Settings

variable {m : Type → Type} [Monad m] [Host m]

/-- The first of several directories with a settings file gives its path. -/
def search : List Path → m (Option Path)
  | [] => return none
  | directory :: rest => do
      let candidate := directory ++ [settingsFile]
      match ← Host.find candidate.toText with
      | .file _ | .directory => return some candidate
      | _ => search rest

def locateFrom (directory : Path) : m (Except LoadFault Path) := do
  match ← search (Path.outward directory) with
  | some path => return .ok path
  | none => return .error .notFound

def locate (start : Path) : m (Except LoadFault Path) := do
  match ← Host.find start.toText with
  | .file _ => locateFrom start.dropLast
  | .tooLong => return .error (.file (.tooLong start.toText))
  | .unnamable => return .error (.file .unnamable)
  | _ => locateFrom start

def load (path : String) : m (Except LoadFault Settings) := do
  let path := Path.shown path
  match (← Host.find path).content path with
  | .error fault => return .error (.file fault)
  | .ok text => return (ofText path text).mapError .settings

/-- The settings that hold for a directory or file; the usual ones if no file holds for it. -/
def loadFor (start : Path) : m (Except LoadFault Settings) := do
  match ← locate start with
  | .error .notFound => return .ok {}
  | .error fault => return .error fault
  | .ok path =>
      match ← load path.toText with
      | .error (.file (.missing _)) => return .ok {}
      | loaded => return loaded

end Settings

end EquationMap
