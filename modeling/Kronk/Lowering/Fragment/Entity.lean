import Kronk.Lowering.Fragment.Basic

/-!
# Fragments of entities and fields

A new entity copies the aggregates that it is given; a field is reached through its address.
-/

namespace Kronk.Lowering

open Lower

/-- Stores the given fields of a new entity; a field that is an aggregate is copied. -/
def storeFields (entity : Entity) (address : IR.Value) (record : IR.Ty) :
    (index : Nat) → List (Option Fragment) → List (String × Ty) → Lower Unit
  | index, given :: rest, (name, type) :: fields => do
    if let some fragment := given then
      let operand ← fragment.value
      match ← convert? operand type with
      | none =>
        fail fragment.line
          (.fieldValueType name entity.header.symbol (moduleText entity.header.name))
      | some converted =>
        let stored ←
          if type.isAggregate then emit (Emit.copyOf operand.value type)
          else pure converted.value
        emit do Emit.store stored (← Emit.fieldPointer address record index)
    storeFields entity address record (index + 1) rest fields
  | _, _, _ => return

def entityLiteral (line : Nat) (name symbol : String) (given : List (Option Fragment)) :
    Fragment :=
  .ofValue line do
    match ← entity? name with
    | none => fail line (.unknownType symbol)
    | some entity =>
      let record ← emit (valueLayout entity.type)
      let address ← emit (Emit.buildEntity entity)
      storeFields entity address record 0 given (entity.fieldNames.zip entity.fieldTypes)
      recordFresh address entity.type

def fieldPlace (line : Nat) (entity : Entity) (address : IR.Value) (name : String) :
    Lower (IR.Value × Ty) := do
  match entity.fieldIndex? name with
  | none =>
    fail line (.unknownField name entity.header.symbol (moduleText entity.header.name))
  | some index =>
    let record ← emit (valueLayout entity.type)
    return (← emit (Emit.fieldPointer address record index), entity.fieldTypes.getD index .self)

def sizeField : String := "size"

/-- A field of an entity, or the size of a list, which cannot be assigned to. -/
def fieldOf (line : Nat) (target : Fragment) (name : String) : Fragment where
  line := line
  load := do
    let operand ← target.value
    match operand.type with
    | .list element =>
      if name ≠ sizeField then fail line (.unknownListField name operand.type.text)
      let size ← emit (Emit.sizeOfList operand.value element)
      return some ⟨← emit (Emit.compute (.convert .sitofp size .double)), .real, false⟩
    | .entity header fields =>
      let (address, type) ← fieldPlace line ⟨header, fields⟩ operand.value name
      let slot ← emit (slotLayout type)
      return some ⟨← emit (Emit.load slot address), type, false⟩
    | _ => fail line .notEntity
  place := do
    let operand ← target.value
    match operand.type with
    | .list _ =>
      if name ≠ sizeField then fail line (.unknownListField name operand.type.text)
      fail line .sizeAssignment
    | .entity header fields =>
      let (address, type) ← fieldPlace line ⟨header, fields⟩ operand.value name
      return ⟨address, type, false⟩
    | _ => fail line .notEntity

end Kronk.Lowering
