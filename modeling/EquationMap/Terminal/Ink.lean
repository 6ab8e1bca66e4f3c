namespace EquationMap

structure Ink where
  start : String
  stop : String
  deriving DecidableEq

namespace Ink

def plain : Ink := ⟨"", ""⟩

def bright (code : String) : Ink := ⟨"\x1b[" ++ code ++ "m", "\x1b[0m"⟩

def bold : Ink := bright "1"
def boldRed : Ink := bright "1;31"
def boldYellow : Ink := bright "1;33"
def boldBlue : Ink := bright "1;34"
def boldCyan : Ink := bright "1;36"

def tint (codes : List String) : Ink :=
  ⟨String.join (codes.map fun code => "\x1b[" ++ code ++ "m"), "\x1b[39;49;00m"⟩

def red : Ink := tint ["31"]
def green : Ink := tint ["32"]
def yellow : Ink := tint ["33"]
def blue : Ink := tint ["34"]
def gray : Ink := tint ["37"]
def underlinedRed : Ink := tint ["04", "91"]

def only (colored : Bool) (ink : Ink) : Ink :=
  if colored then ink else plain

def paint (ink : Ink) (text : String) : String :=
  ink.start ++ text ++ ink.stop

end Ink

end EquationMap
