import EquationMap.CommandLine.Run
import EquationMap.Terminal.Bare

namespace EquationMap

/-- Writes text to a stream, without terminal codes if it leads to no terminal. -/
def writeVisible (stream : IO.FS.Stream) (text : String) : IO Unit := do
  stream.putStr (if ← stream.isTty then text else Terminal.bare text)
  stream.flush

/-- What the operating system's fault says is found; 20, 21 and 36 are its codes for a file in
place of a directory, for the reverse, and for a long name. -/
def foundBy : IO.Error → Found
  | .inappropriateType _ 20 _ => .blocked
  | .inappropriateType _ 21 _ => .directory
  | .invalidArgument _ 36 _ => .tooLong
  | _ => .missing

def findFile (path : String) : IO Found := do
  match ← (IO.FS.readFile path).toBaseIO with
  | .ok content => return .file content
  | .error fault => return foundBy fault

def storeFile (path content : String) : IO (Except FileFault Unit) := do
  match ← (IO.FS.writeFile path content).toBaseIO with
  | .ok () => return .ok ()
  | .error fault => return .error ((foundBy fault).fault path)

instance : Host IO where
  directory := return Path.resolve [] (← IO.currentDir).toString
  find := findFile
  input := do (← IO.getStdin).readToEnd
  print text := do writeVisible (← IO.getStdout) text
  warn text := do writeVisible (← IO.getStderr) text
  log text := do (← IO.getStderr).putStr text
  store := storeFile

end EquationMap

open EquationMap in
def main (words : List String) : IO UInt32 := do
  match ← CommandLine.run words with
  | .ok code => return code.toUInt32
  | .error fault =>
      (← IO.getStderr).putStrLn fault.message
      return 1
