import Kronk.Text.Quoted

/-!
# Types of emitted code
-/

namespace Kronk.IR

/-- The types of emitted code.  A `named` type is a structure defined in the module. -/
inductive Ty where
  | void
  | i1
  | i8
  | i32
  | i64
  | double
  | pointer (target : Ty)
  | array (length : Nat) (element : Ty)
  | record (fields : List Ty)
  | named (name : String)
deriving Repr

namespace Ty

def bytes : Ty := .pointer .i8

mutual

def text : Ty → String
  | void => "void"
  | i1 => "i1"
  | i8 => "i8"
  | i32 => "i32"
  | i64 => "i64"
  | double => "double"
  | pointer target => target.text ++ "*"
  | array length element => "[" ++ toString length ++ " x " ++ element.text ++ "]"
  | record fields => "\x7b " ++ textList fields ++ " \x7d"
  | named name => "%" ++ Text.identifier name

def textList : List Ty → String
  | [] => ""
  | [type] => type.text
  | type :: rest => type.text ++ ", " ++ textList rest

end

mutual

def same : Ty → Ty → Bool
  | void, void | i1, i1 | i8, i8 | i32, i32 | i64, i64 | double, double => true
  | pointer target, pointer other => target.same other
  | array length element, array otherLength other => length == otherLength && element.same other
  | record fields, record others => sameList fields others
  | named name, named other => name == other
  | _, _ => false

def sameList : List Ty → List Ty → Bool
  | [], [] => true
  | type :: rest, other :: others => type.same other && sameList rest others
  | _, _ => false

end

end Ty

end Kronk.IR
