import Kronk.Lowering.Aggregate
import Kronk.Lowering.LowerError
import Kronk.Session
import Kronk.Source.Stmt

/-!
# The frame of a module being compiled

While a file is compiled its frame holds the module in the making, its code and the names in scope.
Lowering works on the frame and on the session around it, and may fail.
-/

namespace Kronk.Lowering

/-- A name in scope: the address of its slot, or of the aggregate itself. -/
structure Binding where
  address : IR.Value
  type : Ty

/-- The function whose body is being compiled: its result and the slot that holds it. -/
structure Activation where
  result : Option Ty
  slot : Option IR.Value

/-- The names of the program or of a function body, and the aggregates built for it. -/
structure Scope where
  bindings : Table Binding := {}
  fresh : List IR.Value := []
  activation : Option Activation := none

namespace Scope

def isFresh (scope : Scope) (address : IR.Value) : Bool :=
  scope.fresh.any (fun other => other.same address)

def isNamed (scope : Scope) (address : IR.Value) : Bool :=
  scope.bindings.entries.any (fun entry => entry.2.address.same address)

end Scope

/-- A module in the making with its code and its scopes, the innermost scope first.  `fileName` is
the constant text that runtime checks are given. -/
structure Frame where
  module : Module
  draft : Draft
  scopes : List Scope
  fileName : IR.Value

structure Workbench where
  session : Session
  frame : Frame

abbrev Lower := EStateM Failure Workbench

/-- The value of an expression and its type.  Where an expression is assigned to, the value is an
address: of a slot, or of the aggregate itself if `inPlace` is set. -/
structure Operand where
  value : IR.Value
  type : Ty
  inPlace : Bool := false

namespace Lower

def emit {α : Type} (emission : Emit α) : Lower α := fun bench =>
  let (value, draft) := emission bench.frame.draft
  .ok value { bench with frame := { bench.frame with draft := draft } }

def fail {α : Type} (line : Nat) (error : LowerError) : Lower α := do
  throw (Failure.atLine .codeGeneration (← get).frame.module.file line error.message)

def modifyFrame (change : Frame → Frame) : Lower Unit :=
  modify fun bench => { bench with frame := change bench.frame }

def currentModule : Lower Module := return (← get).frame.module

def modifyModule (change : Module → Module) : Lower Unit :=
  modifyFrame fun frame => { frame with module := change frame.module }

def trace (message : String) : Lower Unit :=
  modify fun bench => { bench with session := bench.session.trace message }

def scope : Lower Scope := return (← get).frame.scopes.headD {}

def modifyScope (change : Scope → Scope) : Lower Unit :=
  modifyFrame fun frame => { frame with scopes :=
    match frame.scopes with
    | [] => []
    | innermost :: outer => change innermost :: outer }

/-- Lets a name stand for an address; a name declared again is rebound. -/
def bindName (name : String) (address : IR.Value) (type : Ty) : Lower Unit :=
  modifyScope fun scope => { scope with bindings := scope.bindings.insert name ⟨address, type⟩ }

def recordFresh (address : IR.Value) (type : Ty) : Lower Operand := do
  modifyScope fun scope => { scope with fresh := address :: scope.fresh }
  return { value := address, type := type }

def viewpoint : Lower Viewpoint := return ⟨← currentModule, false⟩

/-- Takes the answer of the registry, which can be a failure. -/
def ask {α : Type} (answer : Except Failure α) : Lower α :=
  match answer with
  | .ok value => return value
  | .error failure => throw failure

def entity? (name : String) : Lower (Option Entity) := do
  ask ((← get).session.registry.entity? (← viewpoint) name)

/-- The type that a written type stands for.  `own` is the mangled name of an entity that is being
defined, which stands for itself. -/
def resolve (line : Nat) (own : Option String) : Source.TypeName → Lower Ty
  | .builtin .bool => return .bool
  | .builtin .real => return .real
  | .builtin .string => return .string
  | .list element => return .list (← resolve line own element)
  | .entity name symbol => do
    let registry := (← get).session.registry
    let owner? ← ask (registry.owner? (← viewpoint) name)
    let canonical ← ask (registry.canonical name)
    if owner?.any Owner.isCurrent && own == some canonical then return .self
    match ← entity? name with
    | some entity => return entity.type
    | none => fail line (.unknownType symbol)

end Lower

end Kronk.Lowering
