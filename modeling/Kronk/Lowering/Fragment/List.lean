import Kronk.Lowering.Fragment.Basic

/-!
# Fragments of strings and lists

Literals, elements, slices and concatenations.
-/

namespace Kronk.Lowering

open Lower

def stringLiteral (line : Nat) (content : String) : Fragment :=
  .ofValue line do
    let size := IR.Value.int64 (Text.bytes content).length
    let (list, block) ← emit (Emit.buildList .char size)
    if content ≠ "" then
      let source ← emit (Emit.constantText content)
      emit (Emit.copyValues block source .i8 size)
    recordFresh list .string

/-- The values of the elements of a list, which must have one type.  `earlier` is the type of the
element before and `position` counts from one. -/
def elementValues (line : Nat) : (position : Nat) → (earlier : Option Ty) → List Fragment →
    Lower (List Operand)
  | _, _, [] => return []
  | position, earlier, element :: rest => do
    let operand ← element.value
    if earlier.any (fun type => !operand.type.same type) then fail line (.elementType position)
    return operand :: (← elementValues line (position + 1) (some operand.type) rest)

def storeElements (block : IR.Value) (element : Ty) : (index : Nat) → List Operand → Emit Unit
  | _, [] => return
  | index, operand :: rest => do
    let address ← Emit.elementPointer block element (.int64 index)
    Emit.store operand.value address
    storeElements block element (index + 1) rest

/-- A list; without elements it is a list of reals. -/
def listLiteral (line : Nat) (elements : List Fragment) : Fragment :=
  .ofValue line do
    let operands ← elementValues line 1 none elements
    let element := (operands.head?.map Operand.type).getD .real
    let (list, block) ← emit (Emit.buildList element (.int64 operands.length))
    emit (storeElements block element 0 operands)
    recordFresh list (.list element)

/-- The value of a fragment that must be a list, and the type of its elements. -/
def listValue (fragment : Fragment) : Lower (IR.Value × Ty) := do
  let operand ← fragment.value
  match operand.type with
  | .list element => return (operand.value, element)
  | _ => fail fragment.line .notList

def elementPlace (line : Nat) (list index : Fragment) : Lower (IR.Value × Ty) := do
  let (listed, element) ← listValue list
  let size ← emit (Emit.sizeOfList listed element)
  let given ← indexValue index
  check .indexCheck line [given, size]
  let position ← emit (Emit.normaliseIndex given size)
  let block ← emit (Emit.elementsOf listed element)
  return (← emit (Emit.elementPointer block element position), element)

/-- An element of a list.  The value of a character is a new string of length one. -/
def elementOf (line : Nat) (list index : Fragment) : Fragment where
  line := line
  load := do
    let (address, element) ← elementPlace line list index
    match element with
    | .char =>
      let (text, block) ← emit (Emit.buildList .char (.int64 1))
      emit do Emit.store (← Emit.load .i8 address) block
      return some (← recordFresh text .string)
    | _ =>
      let slot ← emit (slotLayout element)
      return some ⟨← emit (Emit.load slot address), element, false⟩
  place := do
    let (address, element) ← elementPlace line list index
    return ⟨address, element, false⟩

/-- A bound of a slice, with what stands for an absent one. -/
def sliceBound (absent : IR.Value) : Option Fragment → Lower IR.Value
  | none => return absent
  | some fragment => indexValue fragment

def sliceOf (line : Nat) (list : Fragment) (start stop : Option Fragment) : Fragment :=
  .ofValue line do
    let (listed, element) ← listValue list
    let size ← emit (Emit.sizeOfList listed element)
    let givenStart ← sliceBound (.int64 0) start
    let givenStop ← sliceBound size stop
    check .sliceCheck line [givenStart, givenStop, size]
    let first ← emit (Emit.normaliseIndex givenStart size)
    let last ← emit (Emit.normaliseIndex givenStop size)
    let count ← emit (Emit.compute (.arithmetic .sub last first))
    let (slice, block) ← emit (Emit.buildList element count)
    let source ← emit do Emit.elementPointer (← Emit.elementsOf listed element) element first
    emit do Emit.copyValues block source (← slotLayout element) count
    recordFresh slice (.list element)

def concatenation (left right : IR.Value) (element : Ty) : Emit IR.Value := do
  let slot ← slotLayout element
  let leftSize ← Emit.sizeOfList left element
  let rightSize ← Emit.sizeOfList right element
  let (list, block) ← Emit.buildList element (← Emit.compute (.arithmetic .add leftSize rightSize))
  Emit.copyValues block (← Emit.elementsOf left element) slot leftSize
  let rest ← Emit.elementPointer block element leftSize
  Emit.copyValues rest (← Emit.elementsOf right element) slot rightSize
  return list

end Kronk.Lowering
