import Kronk.Lowering.Draft
import Kronk.Type

/-!
# How types are laid out

A value of a primitive type is itself; a list is a size and a pointer to its elements; an entity is
a named structure of the module.  Fields, elements, parameters and results hold aggregates by
pointer.  The structure of an entity is defined in the module when it is first needed, before the
structures of its fields.
-/

namespace Kronk.Lowering

/-- What holds a value of a type whose own layout is `value`. -/
def holding (type : Ty) (value : IR.Ty) : IR.Ty :=
  if type.isAggregate then .pointer value else value

def isDefined (name : String) : Emit Bool := return ((← get).structure? name).isSome

/-- Adds a structure whose fields are not known yet. -/
def openStructure (name : String) : Emit Unit :=
  modify fun draft => { draft with structures := draft.structures ++ [(name, [])] }

def closeStructure (name : String) (fields : List IR.Ty) : Emit Unit :=
  modify fun draft =>
    let filled := draft.structures.map fun entry =>
      if entry.1 = name then (name, fields) else entry
    { draft with structures := filled }

mutual

/-- The layout of the values of a type.  `enclosing` is the mangled name of the entity that `self`
stands for. -/
def layout (enclosing : String) : Ty → Emit IR.Ty
  | .bool => return .i1
  | .real => return .double
  | .int => return .i64
  | .char => return .i8
  | .list element => do
    let elementLayout ← layout enclosing element
    return .record [.i64, .pointer (holding element elementLayout)]
  | .entity header fields => do
    if !(← isDefined header.name) then
      openStructure header.name
      closeStructure header.name (← fieldLayouts header.name fields)
    return .named header.name
  | .self => return .named enclosing

def fieldLayouts (enclosing : String) : List (String × Ty) → Emit (List IR.Ty)
  | [] => return []
  | (_, type) :: rest => do
    let fieldLayout ← layout enclosing type
    return holding type fieldLayout :: (← fieldLayouts enclosing rest)

end

def valueLayout (type : Ty) : Emit IR.Ty := layout "" type

/-- What holds a value of a type in fields, elements, parameters and results. -/
def slotLayout (type : Ty) : Emit IR.Ty := return holding type (← valueLayout type)

end Kronk.Lowering
