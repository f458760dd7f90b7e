/-!
# Resolved types

Types are built from the primitive ones, lists and entities.  Lists are compared by structure and
entities by their mangled name.  An entity may hold itself: inside the fields of an entity `self`
stands for that entity, and `Entity.fieldType?` puts the entity back in its place.
-/

namespace Kronk

/-- How an entity is known: its mangled name, its module and its name as written. -/
structure EntityName where
  name : String
  module : String
  symbol : String
deriving DecidableEq, Repr

/-- Resolved types.  `int` and `char` have no spelling in source text. -/
inductive Ty where
  | bool
  | real
  | int
  | char
  | list (element : Ty)
  | entity (header : EntityName) (fields : List (String × Ty))
  | self

namespace Ty

def string : Ty := .list .char

def text : Ty → String
  | bool => "bool"
  | real => "reel"
  | int => "int"
  | char => "char"
  | list char => "str"
  | list element => "liste(" ++ element.text ++ ")"
  | entity header _ => header.symbol
  | self => "self"

/-- Whether two types are the same: structurally for lists, by name for entities. -/
def same : Ty → Ty → Bool
  | bool, bool | real, real | int, int | char, char | self, self => true
  | list element, list other => same element other
  | entity header _, entity other _ => header.name == other.name
  | _, _ => false

/-- Whether values of the type live behind a pointer. -/
def isAggregate : Ty → Bool
  | list _ | entity _ _ | self => true
  | _ => false

def isNumeric : Ty → Bool
  | real | int => true
  | _ => false

def isString : Ty → Bool
  | list char => true
  | _ => false

def isBool : Ty → Bool
  | bool => true
  | _ => false

/-- A field type seen from outside its entity: `self` becomes the entity. -/
def close (whole : Ty) : Ty → Ty
  | self => whole
  | list element => list (close whole element)
  | other => other

end Ty

structure Entity where
  header : EntityName
  fields : List (String × Ty)

namespace Entity

def type (entity : Entity) : Ty := .entity entity.header entity.fields

def fieldNames (entity : Entity) : List String := entity.fields.map Prod.fst

def fieldTypes (entity : Entity) : List Ty :=
  entity.fields.map (fun field => Ty.close entity.type field.2)

def fieldIndex? (entity : Entity) (name : String) : Option Nat :=
  entity.fieldNames.findIdx? (· == name)

end Entity

/-- A resolved function: the name it is linked under, its module and name as written, and its
parameters and result.  A variadic function takes any number of further arguments. -/
structure Signature where
  name : String
  module : String
  symbol : String
  parameterNames : List String
  parameters : List Ty
  result : Option Ty
  variadic : Bool

def Signature.text (function : Signature) : String :=
  function.symbol ++ "(" ++ String.intercalate ", " (function.parameters.map Ty.text) ++ ")" ++
    match function.result with
    | some result => " " ++ result.text
    | none => ""

end Kronk
