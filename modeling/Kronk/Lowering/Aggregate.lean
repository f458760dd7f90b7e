import Kronk.Lowering.Layout
import Kronk.Lowering.Routine

/-!
# Lists and entities

How lists and entities are built and taken apart, and how they are copied.  A copy of a list has
its own elements block but shares what the elements point to; an entity is copied by a routine of
its own, which copies the fields that are aggregates into storage that outlives the function.
-/

namespace Kronk.Lowering.Emit

/-- Builds a list of `size` elements; gives the list and its elements block. -/
def buildList (element : Ty) (size : IR.Value) : Emit (IR.Value × IR.Value) := do
  let block ← alloca (← slotLayout element) (some size)
  let record ← valueLayout (.list element)
  let list ← alloca record none
  store size (← fieldPointer list record 0)
  store block (← fieldPointer list record 1)
  return (list, block)

def sizeOfList (list : IR.Value) (element : Ty) : Emit IR.Value := do
  let record ← valueLayout (.list element)
  load .i64 (← fieldPointer list record 0)

def elementsOf (list : IR.Value) (element : Ty) : Emit IR.Value := do
  let slot ← slotLayout element
  let record ← valueLayout (.list element)
  load (.pointer slot) (← fieldPointer list record 1)

def elementPointer (block : IR.Value) (element : Ty) (index : IR.Value) : Emit IR.Value := do
  compute (.elementPointer (← slotLayout element) block index)

/-- Gives every list field of an entity an empty list. -/
def initLists (entity : IR.Value) (record : IR.Ty) : (index : Nat) → List Ty → Emit Unit
  | _, [] => return
  | index, type :: rest => do
    match type with
    | .list element =>
      let (list, _) ← buildList element (.int64 0)
      store list (← fieldPointer entity record index)
    | _ => pure ()
    initLists entity record (index + 1) rest

/-- Builds an entity whose fields are zero, with an empty list in each list field. -/
def buildEntity (entity : Entity) : Emit IR.Value := do
  let record ← valueLayout entity.type
  let address ← alloca record none
  store (.zero record) address
  initLists address record 0 entity.fieldTypes
  return address

/-- Overwrites a list with a copy of another one, whose elements block is allocated by
`allocate`. -/
def overwriteList (target source : IR.Value) (element : Ty)
    (allocate : IR.Ty → IR.Value → Emit IR.Value) : Emit Unit := do
  let record ← valueLayout (.list element)
  copyValues target source record (.int64 1)
  let size ← sizeOfList source element
  let slot ← slotLayout element
  let block ← allocate slot size
  copyValues block (← elementsOf source element) slot size
  store block (← fieldPointer target record 1)

/-- Goes on in a new block, which is left out if a condition holds; gives the label and the position
of the block after it. -/
def openUnless (holds : IR.Value) : Emit (String × Nat) := do
  let (copyLabel, copyBlock) ← freshBlock "copy.field"
  let (doneLabel, doneBlock) ← freshBlock "copy.cont"
  terminate (.branch holds doneLabel copyLabel)
  enterBlock copyBlock
  return (doneLabel, doneBlock)

/-- Replaces a field of an aggregate type by a copy in storage that outlives the function, unless it
is null.  `copying` fills the storage from the field. -/
def copyUnlessNull (target : IR.Value) (record : IR.Ty) (index : Nat) (type : Ty)
    (copying : IR.Value → IR.Value → Emit Unit) : Emit Unit := do
  let address ← fieldPointer target record index
  let field ← load (← slotLayout type) address
  let value ← valueLayout type
  let isNull ← compute (.compareEqual false field (.null value))
  let (doneLabel, doneBlock) ← openUnless isNull
  let storage ← heapAllocate value (.int64 1)
  copying storage field
  store storage address
  terminate (.jump doneLabel)
  enterBlock doneBlock

mutual

/-- The routine that copies an entity, which is made if the module does not have it. -/
def copier : Ty → Emit IR.Callee
  | .entity header fields => do
    let name := "copy." ++ header.name
    match ← functionIndex? name with
    | some index => callee index
    | none =>
      let record ← valueLayout (.entity header fields)
      let parameters := [("dst", IR.Ty.pointer record), ("src", IR.Ty.pointer record)]
      let index ← addFunction
        { name := name, internal := true, result := .void, parameters := parameters }
      let target := IR.Value.parameter 0 "dst" (.pointer record)
      let source := IR.Value.parameter 1 "src" (.pointer record)
      let own ← callee index
      inFunction index do
        let _ ← newBlock "entry"
        copyValues target source record (.int64 1)
        copierFields (.entity header fields) own target record 0 fields
        terminate (.ret none)
      return own
  | _ => return ⟨"", .void, [], false⟩

def copierFields (whole : Ty) (own : IR.Callee) (target : IR.Value) (record : IR.Ty) :
    (index : Nat) → List (String × Ty) → Emit Unit
  | _, [] => return
  | index, (_, type) :: rest => do
    if type.isAggregate then
      copyUnlessNull target record index (Ty.close whole type) fun storage field =>
        match type with
        | .list element => overwriteList storage field (Ty.close whole element) heapAllocate
        | .self => perform (.call own [storage, field])
        | _ => do
          let routine ← copier type
          perform (.call routine [storage, field])
    copierFields whole own target record (index + 1) rest

end

def overwrite (target source : IR.Value) (type : Ty) : Emit Unit := do
  match type with
  | .list element => overwriteList target source element stackAllocate
  | .entity header fields =>
    let routine ← copier (.entity header fields)
    perform (.call routine [target, source])
  | _ => return

def copyOf (source : IR.Value) (type : Ty) : Emit IR.Value := do
  let target ← alloca (← valueLayout type) none
  overwrite target source type
  return target

end Kronk.Lowering.Emit
