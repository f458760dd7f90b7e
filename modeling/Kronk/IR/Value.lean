import Kronk.IR.Type
import Kronk.Number.Shortest

/-!
# Values of emitted code

Operands are constants, parameters of the enclosing function, and results of its instructions.
Every value knows its type.
-/

namespace Kronk.IR

/-- The name of a result.  Temporaries are numbered when they are made and renumbered in the order
of the text when a function is written. -/
inductive LocalName where
  | temporary (index : Nat)
  | named (name : String)
deriving DecidableEq, Repr

inductive Value where
  | boolean (value : Bool)
  | integer (type : Ty) (value : Int)
  | real (value : Binary64)
  | null (target : Ty)
  | zero (type : Ty)
  | text (label : String) (length : Nat)
  | sizeOf (type : Ty)
  | parameter (position : Nat) (name : String) (type : Ty)
  | result (name : LocalName) (type : Ty)
deriving Repr

namespace Value

def int64 (value : Int) : Value := .integer .i64 value

/-- The type of a value.  A text is the address of its first byte. -/
def type : Value → Ty
  | boolean _ => .i1
  | integer type _ => type
  | real _ => .double
  | null target => .pointer target
  | zero type => type
  | text _ _ => Ty.bytes
  | sizeOf _ => .i64
  | parameter _ _ type => type
  | result _ type => type

/-- Whether two operands are the same parameter or the same result. -/
def same : Value → Value → Bool
  | parameter position _ _, parameter other _ _ => position == other
  | result name _, result other _ => name == other
  | _, _ => false

/-- Writes a double: exactly in decimal where its shortest digits are its value, and by its bits
otherwise.  A decimal always has a point. -/
def realText (value : Binary64) : String :=
  let digits := value.shortest
  if value.isExact digits then
    let written := value.text.toList
    if '.' ∈ written then String.ofList written
    else
      String.ofList (written.takeWhile (· ≠ 'e')) ++ ".0" ++
        String.ofList (written.dropWhile (· ≠ 'e'))
  else
    "0x" ++ String.ofList ((Nat.toDigits 16 value.bits.toNat).map Char.toUpper)

/-- How a value is written without its type, where `number` renumbers the temporaries. -/
def operandText (number : Nat → Nat) : Value → String
  | boolean value => if value then "true" else "false"
  | integer _ value => toString value
  | real value => realText value
  | null _ => "null"
  | zero _ => "zeroinitializer"
  | text label length =>
    let array := (Ty.array length .i8).text
    "getelementptr (" ++ array ++ ", " ++ array ++ "* @" ++ Text.identifier label ++
      ", i64 0, i64 0)"
  | sizeOf type =>
    "ptrtoint (" ++ type.text ++ "* getelementptr (" ++ type.text ++ ", " ++ type.text ++
      "* null, i32 1) to i64)"
  | parameter _ name _ => "%" ++ Text.identifier name
  | result (.temporary index) _ => "%" ++ toString (number index)
  | result (.named name) _ => "%" ++ Text.identifier name

def typedText (number : Nat → Nat) (value : Value) : String :=
  value.type.text ++ " " ++ value.operandText number

end Value

end Kronk.IR
