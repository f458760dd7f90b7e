import Kronk.Type

/-!
# The runtime catalogue

The runtime offers routines in modules of its own.  A program includes such a module by name; the
print routine can be called without that.
-/

namespace Kronk.Catalogue

structure Routine where
  module : String
  symbol : String
  parameters : List Ty
  result : Option Ty
  variadic : Bool

def printSymbol : String := "afficher"

def routines : List Routine :=
  [⟨"io", printSymbol, [], none, true⟩,
    ⟨"math", "puiss", [.real, .real], some .real, false⟩,
    ⟨"math", "exp", [.real], some .real, false⟩,
    ⟨"math", "mod", [.real, .real], some .real, false⟩,
    ⟨"math", "sin", [.real], some .real, false⟩,
    ⟨"math", "cos", [.real], some .real, false⟩,
    ⟨"math", "tan", [.real], some .real, false⟩]

def hasModule (module : String) : Bool := routines.any (fun routine => routine.module == module)

def routine? (module symbol : String) : Option Routine :=
  routines.find? (fun routine => routine.module == module && routine.symbol == symbol)

def linkName (module symbol : String) : String := "_k" ++ module ++ "_" ++ symbol

/-- A routine as a function; its parameters are `p0`, `p1` and so on. -/
def Routine.signature (routine : Routine) : Signature :=
  { name := linkName routine.module routine.symbol
    module := routine.module
    symbol := routine.symbol
    parameterNames := routine.parameters.mapIdx (fun position _ => "p" ++ toString position)
    parameters := routine.parameters
    result := routine.result
    variadic := routine.variadic }

def function? (module symbol : String) : Option Signature :=
  (routine? module symbol).map Routine.signature

/-- The module of a routine that can be called without including it. -/
def directModule? (symbol : String) : Option String :=
  if symbol = printSymbol then some "io" else none

end Kronk.Catalogue
