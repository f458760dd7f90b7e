import Kronk.Path

/-!
# Places in source files
-/

namespace Kronk

/-- A place in a file.  The empty path is no place at all. -/
structure Location where
  path : String := ""
  line : Nat := 0
  column : Nat := 0
deriving DecidableEq, Repr

namespace Location

def ofLine (path : String) (line : Nat) : Location := ⟨path, line, 0⟩

def isEmpty (location : Location) : Bool := location.path == ""

def fileName (location : Location) : String := Path.base location.path

def cursorText (location : Location) : String :=
  if location.isEmpty then ""
  else location.path ++ ":" ++ toString location.line ++ ":" ++ toString location.column

end Location

end Kronk
