import Kronk.IR.Module
import Kronk.Table
import Kronk.Type

/-!
# Modules

A module is what other modules can know of a compiled file: the entities and functions it defines,
the aliases it uses and its code.  A module that stands for a runtime module has none of these.
-/

namespace Kronk

/-- A module, finished or in the making.  Entities and functions are kept under their mangled
names; signatures list the fields of every entity that was read. -/
structure Module where
  id : String
  file : String := ""
  runtime : Option String := none
  signatures : Table (List String) := {}
  entities : Table Entity := {}
  functions : Table Signature := {}
  dependencies : List String := []
  code : IR.Module := ⟨"", [], [], []⟩

namespace Module

def ofRuntime (id runtime : String) : Module := { id := id, runtime := some runtime }

def hasDependency (module : Module) (localName : String) : Bool :=
  module.dependencies.contains localName

def isRuntime (module : Module) : Bool := module.runtime.isSome

end Module

end Kronk
