import Kronk.Number.Binary64
import Kronk.Operator

/-!
# Expressions and type names as written
-/

namespace Kronk.Source

inductive Builtin where
  | bool
  | real
  | string
deriving DecidableEq, Repr

namespace Builtin

def spelling : Builtin → String
  | bool => "bool"
  | real => "reel"
  | string => "str"

def ofSpelling? (text : String) : Option Builtin :=
  [bool, real, string].find? (fun builtin => builtin.spelling == text)

end Builtin

/-- A type as it is written.  An entity is known by its mangled name. -/
inductive TypeName where
  | builtin (type : Builtin)
  | list (element : TypeName)
  | entity (name symbol : String)
deriving DecidableEq, Repr

def TypeName.text : TypeName → String
  | builtin type => type.spelling
  | list element => "liste(" ++ element.text ++ ")"
  | entity _ symbol => symbol

/-- Expressions, each with the line it is reported at.  The fields of an entity are listed by their
position in its signature. -/
inductive Expr where
  | boolean (line : Nat) (value : Bool)
  | number (line : Nat) (value : Binary64)
  | string (line : Nat) (value : String)
  | identifier (line : Nat) (name : String)
  | list (line : Nat) (elements : List Expr)
  | index (line : Nat) (list index : Expr)
  | slice (line : Nat) (list : Expr) (start stop : Option Expr)
  | entity (line : Nat) (name symbol : String) (fields : List (Option Expr))
  | field (line : Nat) (entity : Expr) (name : String)
  | binary (line : Nat) (operator : Operator) (left right : Expr)
  | unary (line : Nat) (operator : Operator) (operand : Expr)
  | assignment (line : Nat) (target value : Expr)
  | call (line : Nat) (callee : String) (arguments : List Expr)
deriving Repr

def Expr.line : Expr → Nat
  | boolean line _ => line
  | number line _ => line
  | string line _ => line
  | identifier line _ => line
  | list line _ => line
  | index line _ _ => line
  | slice line _ _ _ => line
  | entity line _ _ _ => line
  | field line _ _ => line
  | binary line _ _ _ => line
  | unary line _ _ => line
  | assignment line _ _ => line
  | call line _ _ => line

def Expr.isTarget : Expr → Bool
  | identifier _ _ | field _ _ _ | index _ _ _ => true
  | _ => false

end Kronk.Source
