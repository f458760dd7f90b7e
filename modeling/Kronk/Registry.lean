import Kronk.Catalogue
import Kronk.Module
import Kronk.Name

/-!
# The registry of modules

The registry holds the finished modules of a run by their ids, the id under which each file was
first compiled, and the further ids under which such a file was included again.  A further id is a
duplicate of the first one, its representative id, and names mangled with it mean the same things.
Modules are kept in the order of their registration: a later one hides an earlier one of its id.
-/

namespace Kronk

/-- The registered modules, the latest first, duplicates with the id they stand for, and files with
the id they are bound to. -/
structure Registry where
  registrations : List Module := []
  duplicates : Table String := {}
  files : Table String := {}

/-- A module that looks names up.  `registered` says that the registry holds this very module under
its id. -/
structure Viewpoint where
  module : Module
  registered : Bool := false

/-- The viewpoint after another module was registered, which may have taken its id. -/
def Viewpoint.displacedBy (view : Viewpoint) (other : Module) : Viewpoint :=
  { view with registered := view.registered && other.id != view.module.id }

/-- The module a mangled name leads to; `isCurrent` says that it is the module that asks. -/
structure Owner where
  module : Module
  isCurrent : Bool
  parts : NameParts

namespace Registry

def register (registry : Registry) (module : Module) : Registry :=
  { registry with registrations := module :: registry.registrations }

def registered? (registry : Registry) (id : String) : Option Module :=
  registry.registrations.find? (fun module => module.id == id)

/-- Follows duplicates for at most `fuel` steps. -/
def chase (duplicates : Table String) : (fuel : Nat) → String → Option String
  | 0, id => if duplicates.contains id then none else some id
  | fuel + 1, id =>
    match duplicates.get? id with
    | none => some id
    | some next => chase duplicates fuel next

/-- The id that a chain of duplicates leads to; nothing if the chain never ends. -/
def representative? (registry : Registry) (id : String) : Option String :=
  chase registry.duplicates registry.duplicates.entries.length id

/-- The id that a chain of duplicates leads to.  Following a chain that never ends never ends. -/
def representative (registry : Registry) (id : String) : Except Failure String :=
  match registry.representative? id with
  | some root => .ok root
  | none => .error .endless

def module? (registry : Registry) (id : String) : Except Failure (Option Module) := do
  return registry.registered? (← registry.representative id)

def modules (registry : Registry) : Table Module :=
  Table.ofList (registry.registrations.reverse.map (fun module => (module.id, module)))

def sortedModules (registry : Registry) : List Module := registry.modules.sorted.map Prod.snd

def sourceModules (registry : Registry) : List Module :=
  registry.sortedModules.filter (fun module => !module.isRuntime)

def idOfFile? (registry : Registry) (path : String) : Option String := registry.files.get? path

def recordFile (registry : Registry) (path id : String) : Registry :=
  { registry with files := registry.files.insert path id }

/-- Binds a file to an id unless it is bound already.  Gives the id that the file is bound to and
whether it was bound just now. -/
def bindFile (registry : Registry) (path id : String) : (String × Bool) × Registry :=
  match registry.idOfFile? path with
  | some first => ((first, false), registry)
  | none => ((id, true), registry.recordFile path id)

/-- Whether a file that is bound to an id waits for itself, where modules of some ids wait. -/
def isCircular (waiting : List String) (id : String) : Bool := waiting.contains id

def fileOf? (registry : Registry) (id : String) : Option String :=
  (registry.files.entries.find? (fun entry => entry.2 == id)).map Prod.fst

/-- Makes an id a duplicate of what another id stands for; nothing if the chain of duplicates from
there never ends. -/
def addDuplicate? (registry : Registry) (id other : String) : Option Registry :=
  (registry.representative? other).map fun target =>
    { registry with duplicates := registry.duplicates.insert id target }

/-- The parts of a mangled name; nothing if the name is none. -/
def parts? (mangled : String) : Except Failure (Option NameParts) :=
  match Name.demangle mangled with
  | .ok parts => .ok (some parts)
  | .error (.outOfBounds stop) => .error (DemangleError.failure mangled (.outOfBounds stop))
  | .error _ => .ok none

/-- A mangled name with the id of its module replaced by its representative. -/
def canonical (registry : Registry) (mangled : String) : Except Failure String := do
  match ← parts? mangled with
  | none => return mangled
  | some parts =>
    let id ← registry.representative parts.module
    return if id = parts.module then mangled else Name.mangle parts.kind id parts.symbol

/-- The module a mangled name leads to: the one that asks, or a registered one. -/
def owner? (registry : Registry) (view : Viewpoint) (mangled : String) :
    Except Failure (Option Owner) := do
  match ← parts? mangled with
  | none => return none
  | some parts =>
    if parts.module = view.module.id then return some ⟨view.module, true, parts⟩
    let id ← registry.representative parts.module
    return (registry.registered? id).map fun module =>
      ⟨module, view.registered && id == view.module.id, parts⟩

/-- What the table of the module that a mangled name leads to has under its canonical name. -/
def lookup? {α : Type} (table : Module → Table α) (registry : Registry) (view : Viewpoint)
    (mangled : String) : Except Failure (Option α) := do
  match ← registry.owner? view mangled with
  | none => return none
  | some owner => return (table owner.module).get? (← registry.canonical mangled)

def entity? : Registry → Viewpoint → String → Except Failure (Option Entity) :=
  lookup? Module.entities

def signature? : Registry → Viewpoint → String → Except Failure (Option (List String)) :=
  lookup? Module.signatures

/-- The function a mangled name stands for.  A runtime module answers from the catalogue, and a
module can call the direct routines of the runtime as if they were its own. -/
def function? (registry : Registry) (view : Viewpoint) (mangled : String) :
    Except Failure (Option Signature) := do
  match ← registry.owner? view mangled with
  | none => return none
  | some owner =>
    match owner.module.runtime with
    | some runtime => return Catalogue.function? runtime owner.parts.symbol
    | none =>
      match owner.module.functions.get? (← registry.canonical mangled) with
      | some function => return some function
      | none =>
        if owner.isCurrent then
          return (Catalogue.directModule? owner.parts.symbol).bind fun runtime =>
            Catalogue.function? runtime owner.parts.symbol
        else return none

end Registry

end Kronk
