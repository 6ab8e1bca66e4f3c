import EquationMap.Toml.Document

namespace EquationMap

structure Settings where
  /-- The width by which levels of data are indented; without one data stands on one line. -/
  indent : Option Nat := none
  colored : Bool := true
  deriving DecidableEq

inductive SettingsFault where
  | unreadable
  | notTable (kind : String)
  | badIndent (path : String)
  | badColor (path : String)
  deriving DecidableEq

def SettingsFault.message : SettingsFault → String
  | unreadable => ""
  | notTable kind => "'" ++ kind ++ "' object has no attribute 'get'"
  | badIndent path => path ++ ": output.indent must be a non-negative integer"
  | badColor path => path ++ ": output.color must be true or false"

namespace Settings

def indentOf (path : String) : Option Toml.Value → Except SettingsFault (Option Nat)
  | none => .ok none
  | some (.integer (.ofNat width)) => .ok (some width)
  | some _ => .error (.badIndent path)

def colorOf (path : String) : Option Toml.Value → Except SettingsFault Bool
  | none => .ok true
  | some (.truth colored) => .ok colored
  | some _ => .error (.badColor path)

/-- The settings in a table; other keys than those of the output section have no meaning. -/
def ofTable (path : String) (table : Toml.Table) : Except SettingsFault Settings :=
  match table.get? "output" with
  | none => .ok {}
  | some (.table _ output) => do
      let indent ← indentOf path (Entries.get? output "indent")
      let colored ← colorOf path (Entries.get? output "color")
      return { indent, colored }
  | some value => .error (.notTable value.kindName)

def ofText (path text : String) : Except SettingsFault Settings :=
  match Toml.parse text with
  | none => .error .unreadable
  | some table => ofTable path table

end Settings

end EquationMap
