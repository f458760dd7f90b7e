import Kronk.Lowering.Frame

/-!
# Fragments

An expression is lowered to a fragment: how its value is computed, and how its place is found when
it is assigned to.  The fragment of an expression is built from the fragments of its parts, which
are computed in the order of the text.
-/

namespace Kronk.Lowering

/-- The lowered form of an expression.  A call of a function without result has no operand. -/
structure Fragment where
  line : Nat
  load : Lower (Option Operand)
  place : Lower Operand

namespace Fragment

def value (fragment : Fragment) : Lower Operand := do
  match ← fragment.load with
  | some operand => return operand
  | none => Lower.fail fragment.line .noValue

/-- A fragment that cannot be assigned to. -/
def ofLoad (line : Nat) (load : Lower (Option Operand)) : Fragment :=
  ⟨line, load, Lower.fail line .assignmentTarget⟩

/-- A fragment that has a value and cannot be assigned to. -/
def ofValue (line : Nat) (value : Lower Operand) : Fragment := ofLoad line (some <$> value)

end Fragment

open Lower

/-- Converts an operand to a type.  Equal types need no code, and integers and reals are converted
into each other; there is no other conversion. -/
def convert? (operand : Operand) (target : Ty) : Lower (Option Operand) := do
  if operand.type.same target then return some operand
  match operand.type, target with
  | .int, .real =>
    return some ⟨← emit (Emit.compute (.convert .sitofp operand.value .double)), .real, false⟩
  | .real, .int =>
    return some ⟨← emit (Emit.compute (.convert .fptosi operand.value .i64)), .int, false⟩
  | _, _ => return none

/-- Makes an integer a real; other operands stay as they are. -/
def widen (operand : Operand) : Lower Operand := do
  return (← convert? operand .real).getD operand

def indexValue (fragment : Fragment) : Lower IR.Value := do
  let operand ← fragment.value
  match ← convert? operand .int with
  | some index => return index.value
  | none => fail fragment.line .indexType

def check (routine : Routine) (line : Nat) (arguments : List IR.Value) : Lower Unit := do
  let file := (← get).frame.fileName
  emit (Emit.check routine file line arguments)

/-- The module that a mangled name shows, or nothing if it is malformed. -/
def moduleText (mangled : String) : String :=
  match Name.demangle mangled with
  | .ok parts => parts.module
  | .error _ => ""

/-- The symbol that a mangled name shows, or nothing if it is malformed. -/
def symbolText (mangled : String) : String :=
  match Name.demangle mangled with
  | .ok parts => parts.symbol
  | .error _ => ""

def binding (line : Nat) (name : String) : Lower Binding := do
  match (← scope).bindings.get? name with
  | some found => return found
  | none => fail line (.unknownIdentifier name)

def identifier (line : Nat) (name : String) : Fragment where
  line := line
  load := do
    let found ← binding line name
    if found.type.isAggregate then return some ⟨found.address, found.type, false⟩
    let type ← emit (valueLayout found.type)
    return some ⟨← emit (Emit.load type found.address), found.type, false⟩
  place := do
    let found ← binding line name
    return ⟨found.address, found.type, found.type.isAggregate⟩

end Kronk.Lowering
