import Kronk.Lowering.Fragment.Basic

/-!
# Fragments of assignments

Aggregates are assigned by copying, characters and primitives by storing.
-/

namespace Kronk.Lowering

open Lower

/-- Assigns an operand to an aggregate.  A named aggregate is overwritten; a slot gets a copy. -/
def assignAggregate (line : Nat) (target source : Operand) : Lower Operand := do
  if !source.type.isAggregate then fail line .primitiveToAggregate
  if !target.type.same source.type then fail line .assignmentTypes
  if target.inPlace then
    emit (Emit.overwrite target.value source.value target.type)
    return ⟨target.value, target.type, false⟩
  else
    let copy ← emit (Emit.copyOf source.value target.type)
    emit (Emit.store copy target.value)
    return ⟨copy, target.type, false⟩

/-- Replaces a character of a string by the first one of another string. -/
def assignCharacter (line : Nat) (target source : Operand) : Lower Operand := do
  if !source.type.isString then fail line .characterValue
  emit do
    let character ← Emit.load .i8 (← Emit.elementsOf source.value .char)
    Emit.store character target.value
  return source

def assignPrimitive (line : Nat) (target source : Operand) : Lower Operand := do
  match ← convert? source target.type with
  | none => fail line .assignmentTypes
  | some converted =>
    emit (Emit.store converted.value target.value)
    return converted

/-- An assignment; its value is what was assigned. -/
def assignment (line : Nat) (target source : Fragment) : Fragment :=
  .ofValue line do
    let place ← target.place
    let operand ← source.value
    if place.type.isAggregate then assignAggregate line place operand
    else
      match place.type with
      | .char => assignCharacter line place operand
      | _ => assignPrimitive line place operand

end Kronk.Lowering
