import Kronk.Source.Expr

/-!
# Statements as written
-/

namespace Kronk.Source

/-- What an include statement names: a file by the elements of its path, or a runtime module. -/
inductive IncludeTarget where
  | file (path : List String)
  | runtime (name : String)
deriving DecidableEq, Repr

structure Include where
  line : Nat
  target : IncludeTarget
  localName : Option String
deriving DecidableEq, Repr

/-- The name under which the including module knows the included one: the alias, or else the last
element of what is named. -/
def Include.id (inclusion : Include) : String :=
  inclusion.localName.getD <|
    match inclusion.target with
    | .file path => path.getLastD ""
    | .runtime name => name

/-- The head of a function definition.  `name` is the mangled name. -/
structure Prototype where
  line : Nat
  name : String
  symbol : String
  parameters : List (String × TypeName)
  result : Option TypeName
deriving DecidableEq, Repr

/-- The definition of an entity.  `name` is the mangled name. -/
structure EntityDefinition where
  line : Nat
  name : String
  symbol : String
  fields : List (String × TypeName)
deriving DecidableEq, Repr

mutual

inductive Stmt where
  | declaration (line : Nat) (name : String) (type : TypeName)
  | initialisation (line : Nat) (name : String) (value : Expr)
  | entity (definition : EntityDefinition)
  | function (line : Nat) (prototype : Prototype) (body : Block)
  | result (line : Nat) (value : Option Expr)
  | conditional (line : Nat) (condition : Expr) (consequent : Block) (alternative : Alternative)
  | loop (line : Nat) (condition : Expr) (body : Block)
  | inclusion (statement : Include)
  | expression (value : Expr)

inductive Block where
  | mk (line : Nat) (statements : List Stmt)

/-- What follows the first block of a conditional: nothing, a block, or another conditional. -/
inductive Alternative where
  | absent
  | block (body : Block)
  | conditional (line : Nat) (condition : Expr) (consequent : Block) (alternative : Alternative)

end

def Stmt.isResult : Stmt → Bool
  | .result _ _ => true
  | _ => false

def Block.statements : Block → List Stmt
  | mk _ statements => statements

end Kronk.Source
