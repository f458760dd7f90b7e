import Kronk.Lowering.Fragment.Basic

/-!
# Fragments of calls

Arguments are computed in order and converted to the parameters; the print routine takes anything.
-/

namespace Kronk.Lowering

open Lower

def declareSignature (function : Signature) : Emit Nat := do
  let parameters ← function.parameters.mapM slotLayout
  let result ← function.result.elim (pure IR.Ty.void) slotLayout
  Emit.declare
    { name := function.name
      result := result
      parameters := function.parameterNames.zip parameters
      variadic := function.variadic }

/-- Calls a function; the operand is absent if it has no result. -/
def callSignature (function : Signature) (arguments : List IR.Value) : Emit (Option Operand) := do
  let callee ← Emit.callee (← declareSignature function)
  let result ← Emit.call callee arguments
  return function.result.map (fun type => ⟨result, type, false⟩)

/-- The values of arguments, converted to the parameters; `position` counts from one. -/
def argumentValues (function : String) : (position : Nat) → List Fragment → List Ty →
    Lower (List IR.Value)
  | position, argument :: rest, type :: types => do
    let operand ← argument.value
    match ← convert? operand type with
    | none => fail argument.line (.argumentType position function)
    | some converted =>
      return converted.value :: (← argumentValues function (position + 1) rest types)
  | _, _, _ => return []

/-- How an operand is printed: the letters that announce it and the values that are passed. -/
def printedOperand (operand : Operand) : Emit (String × List IR.Value) := do
  match operand.type with
  | .bool => return ("b", [← Emit.compute (.convert .zext operand.value .i32)])
  | .real => return ("r", [operand.value])
  | .list .char =>
    let block ← Emit.elementsOf operand.value .char
    let size ← Emit.sizeOfList operand.value .char
    return ("sd", [block, size])
  | type => return ("s", [← Emit.constantText ("<" ++ type.text ++ ">")])

def printedArguments : List Fragment → Lower (String × List IR.Value)
  | [] => return ("", [])
  | argument :: rest => do
    let operand ← widen (← argument.value)
    let (letters, values) ← emit (printedOperand operand)
    let (laterLetters, laterValues) ← printedArguments rest
    return (letters ++ laterLetters, values ++ laterValues)

/-- A call of the print routine, which is told by a format what follows. -/
def printCall (function : Signature) (arguments : List Fragment) : Lower Unit := do
  let (letters, values) ← printedArguments arguments
  emit do
    let format ← Emit.constantText letters
    let index ← Emit.declare
      { name := function.name
        result := .void
        parameters := [("fmt", IR.Ty.bytes)]
        variadic := true }
    Emit.perform (.call (← Emit.callee index) (format :: values))

def call (line : Nat) (callee : String) (arguments : List Fragment) : Fragment :=
  .ofLoad line do
    match ← ask ((← get).session.registry.function? (← viewpoint) callee) with
    | none => fail line (.unknownFunction (moduleText callee) (symbolText callee))
    | some function =>
      if function.variadic && function.symbol == Catalogue.printSymbol then
        printCall function arguments
        return none
      if arguments.length < function.parameters.length then
        fail line (.tooFewArguments function.symbol)
      if function.parameters.length < arguments.length then
        fail line (.tooManyArguments function.symbol)
      let values ← argumentValues function.symbol 1 arguments function.parameters
      emit (callSignature function values)

end Kronk.Lowering
