import Kronk.IR.Module
import Kronk.Table

/-!
# Code in the making

A draft is the code of a module while it is emitted: what is finished so far, and the block that
instructions are appended to.  Emission is a function on drafts; code that holds a refused operation
is found out when it is looked through.
-/

namespace Kronk.Lowering

/-- Where instructions are appended: the position of a function and of one of its blocks. -/
structure Place where
  function : Nat
  block : Nat
deriving DecidableEq, Repr

/-- The code of a module in the making.  `labels` counts how often a label was used, `temporaries`
how many results were made, and `strays` how often something was written into a block that had been
ended. -/
structure Draft where
  structures : List (String × List IR.Ty) := []
  texts : List String := []
  functions : List IR.Function := []
  labels : Table Nat := {}
  temporaries : Nat := 0
  strays : Nat := 0
  place : Place := ⟨0, 0⟩

abbrev Emit := StateM Draft

namespace Draft

def mapFunction (draft : Draft) (change : IR.Function → IR.Function) : Draft :=
  { draft with functions := draft.functions.modify draft.place.function change }

def function? (draft : Draft) : Option IR.Function := draft.functions[draft.place.function]?

def block? (draft : Draft) : Option IR.Block := do
  (← draft.function?).blocks[draft.place.block]?

def hasOpenBlock (draft : Draft) : Bool := draft.block?.any (fun block => block.terminator.isNone)

/-- The draft with a note of whether what is written next is a stray. -/
def noted (draft : Draft) : Draft :=
  { draft with strays := draft.strays + if draft.hasOpenBlock then 0 else 1 }

def mapBlock (draft : Draft) (change : IR.Block → IR.Block) : Draft :=
  draft.noted.mapFunction fun function =>
    { function with blocks := function.blocks.modify draft.place.block change }

def structure? (draft : Draft) (name : String) : Option (List IR.Ty) :=
  draft.structures.lookup name

def fieldType (draft : Draft) (record : IR.Ty) (index : Nat) : IR.Ty :=
  match record with
  | .record fields => fields.getD index .void
  | .named name => ((draft.structure? name).getD []).getD index .void
  | _ => .void

/-- Why the code is refused: the first operation that is. -/
def refusal? (draft : Draft) : Option String :=
  (draft.functions.flatMap fun function => function.blocks.flatMap IR.Block.instructions).findSome?
    fun instruction => instruction.operation.refusal?

def finish (draft : Draft) (source : String) : IR.Module :=
  ⟨source, draft.structures, draft.texts, draft.functions⟩

end Draft

namespace Emit

def append (instruction : IR.Instruction) : Emit Unit :=
  modify fun draft => draft.mapBlock fun block =>
    { block with instructions := block.instructions ++ [instruction] }

def perform (operation : IR.Operation) : Emit Unit := append ⟨none, operation⟩

def compute (operation : IR.Operation) : Emit IR.Value := do
  let draft ← get
  set { draft with temporaries := draft.temporaries + 1 }
  let name := IR.LocalName.temporary draft.temporaries
  append ⟨some name, operation⟩
  return .result name operation.resultType

def terminate (terminator : IR.Terminator) : Emit Unit :=
  modify fun draft => draft.mapBlock fun block => { block with terminator := some terminator }

def isTerminated : Emit Bool := return ((← get).block?.bind IR.Block.terminator).isSome

def jumpUnlessTerminated (label : String) : Emit Unit := do
  if !(← isTerminated) then terminate (.jump label)

def newBlock (label : String) : Emit Nat := do
  let draft ← get
  set (draft.mapFunction fun function =>
    { function with blocks := function.blocks ++ [{ label := label }] })
  return (draft.function?.map (fun function => function.blocks.length)).getD 0

def enterBlock (block : Nat) : Emit Unit :=
  modify fun draft => { draft with place := ⟨draft.place.function, block⟩ }

/-- A label that was not used before in the module: the first one is plain, later ones carry a
number. -/
def freshLabel (base : String) : Emit String := do
  let draft ← get
  let count := (draft.labels.get? base).getD 0
  set { draft with labels := draft.labels.insert base (count + 1) }
  return if count = 0 then base else base ++ toString count

def freshBlock (base : String) : Emit (String × Nat) := do
  let label ← freshLabel base
  return (label, ← newBlock label)

def addFunction (function : IR.Function) : Emit Nat := do
  let draft ← get
  set { draft with functions := draft.functions ++ [function] }
  return draft.functions.length

def functionIndex? (name : String) : Emit (Option Nat) :=
  return (← get).functions.findIdx? (fun function => function.name == name)

/-- The position of a function, which is declared if there is none of its name. -/
def declare (function : IR.Function) : Emit Nat := do
  match ← functionIndex? function.name with
  | some index => return index
  | none => addFunction function

/-- The function at a position, as its callers see it. -/
def callee (index : Nat) : Emit IR.Callee := do
  return (((← get).functions[index]?).map IR.Function.callee).getD ⟨"", .void, [], false⟩

/-- Declares a function and calls it; the result is meaningless if it has none. -/
def call (function : IR.Callee) (arguments : List IR.Value) : Emit IR.Value := do
  match function.result with
  | .void =>
    perform (.call function arguments)
    return .zero .void
  | _ => compute (.call function arguments)

/-- The address of a constant text, which is added if the module does not have it. -/
def constantText (content : String) : Emit IR.Value := do
  let draft ← get
  let length := (Text.bytes content).length + 1
  match draft.texts.findIdx? (· == content) with
  | some position => return .text (IR.Module.textLabel position) length
  | none =>
    set { draft with texts := draft.texts ++ [content] }
    return .text (IR.Module.textLabel draft.texts.length) length

def load (type : IR.Ty) (address : IR.Value) : Emit IR.Value := compute (.load type address)

def store (value address : IR.Value) : Emit Unit := perform (.store value address)

def alloca (type : IR.Ty) (count : Option IR.Value) : Emit IR.Value := compute (.alloca type count)

def fieldPointer (base : IR.Value) (record : IR.Ty) (index : Nat) : Emit IR.Value := do
  compute (.fieldPointer record base index ((← get).fieldType record index))

def inFunction {α : Type} (index : Nat) (body : Emit α) : Emit α := do
  let place := (← get).place
  modify fun draft => { draft with place := ⟨index, 0⟩ }
  let value ← body
  modify fun draft => { draft with place := place }
  return value

end Emit

end Kronk.Lowering
