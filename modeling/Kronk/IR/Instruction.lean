import Kronk.IR.Value

/-!
# Instructions of emitted code

An instruction performs an operation and may name its result; a block ends with a terminator.
-/

namespace Kronk.IR

inductive Arithmetic where
  | fadd
  | fsub
  | fmul
  | fdiv
  | frem
  | add
  | sub
  | mul
  | shl
  | ashr
  | and
  | or
  | xor
deriving DecidableEq, Repr

def Arithmetic.text : Arithmetic → String
  | fadd => "fadd"
  | fsub => "fsub"
  | fmul => "fmul"
  | fdiv => "fdiv"
  | frem => "frem"
  | add => "add"
  | sub => "sub"
  | mul => "mul"
  | shl => "shl"
  | ashr => "ashr"
  | and => "and"
  | or => "or"
  | xor => "xor"

inductive RealPredicate where
  | olt
  | ogt
  | ole
  | oge
  | oeq
  | one
deriving DecidableEq, Repr

def RealPredicate.text : RealPredicate → String
  | olt => "olt"
  | ogt => "ogt"
  | ole => "ole"
  | oge => "oge"
  | oeq => "oeq"
  | one => "one"

inductive Conversion where
  | fptosi
  | sitofp
  | zext
  | bitcast
deriving DecidableEq, Repr

def Conversion.text : Conversion → String
  | fptosi => "fptosi"
  | sitofp => "sitofp"
  | zext => "zext"
  | bitcast => "bitcast"

structure Callee where
  name : String
  result : Ty
  parameters : List Ty
  variadic : Bool
deriving Repr

inductive Operation where
  | alloca (type : Ty) (count : Option Value)
  | load (type : Ty) (address : Value)
  | store (value address : Value)
  | fieldPointer (record : Ty) (base : Value) (index : Nat) (field : Ty)
  | elementPointer (element : Ty) (base index : Value)
  | call (callee : Callee) (arguments : List Value)
  | arithmetic (operator : Arithmetic) (left right : Value)
  | negate (operand : Value)
  | compareReal (predicate : RealPredicate) (left right : Value)
  | compareEqual (negated : Bool) (left right : Value)
  | convert (conversion : Conversion) (operand : Value) (target : Ty)
deriving Repr

namespace Operation

/-- The type of the result; `void` for an operation without one. -/
def resultType : Operation → Ty
  | alloca type _ => .pointer type
  | load type _ => type
  | store _ _ => .void
  | fieldPointer _ _ _ field => .pointer field
  | elementPointer element _ _ => .pointer element
  | call callee _ => callee.result
  | arithmetic _ left _ => left.type
  | negate operand => operand.type
  | compareReal _ _ _ => .i1
  | compareEqual _ _ _ => .i1
  | convert _ _ target => target

def operands : Operation → List Value
  | alloca _ count => count.toList
  | load _ address => [address]
  | store value address => [value, address]
  | fieldPointer _ base _ _ => [base]
  | elementPointer _ base index => [base, index]
  | call _ arguments => arguments
  | arithmetic _ left right => [left, right]
  | negate operand => [operand]
  | compareReal _ left right => [left, right]
  | compareEqual _ left right => [left, right]
  | convert _ operand _ => [operand]

/-- Why an operation is refused: a store takes a value of the type that its address points to. -/
def refusal? : Operation → Option String
  | store value address =>
    if address.type.same (.pointer value.type) then none
    else
      some ("store operands are not compatible: src=" ++ value.type.text ++ "; dst=" ++
        address.type.text)
  | _ => none

/-- How the callee of a call is written: a variadic one shows the types of its parameters. -/
def calleeText (callee : Callee) : String :=
  let signature :=
    if callee.variadic then
      " (" ++ String.intercalate ", " (callee.parameters.map Ty.text ++ ["..."]) ++ ")"
    else ""
  callee.result.text ++ signature ++ " @" ++ Text.identifier callee.name

def text (number : Nat → Nat) : Operation → String
  | alloca type count =>
    "alloca " ++ type.text ++
      match count with
      | some count => ", " ++ count.typedText number
      | none => ""
  | load type address => "load " ++ type.text ++ ", " ++ address.typedText number
  | store value address => "store " ++ value.typedText number ++ ", " ++ address.typedText number
  | fieldPointer record base index _ =>
    "getelementptr " ++ record.text ++ ", " ++ base.typedText number ++ ", i32 0, i32 " ++
      toString index
  | elementPointer element base index =>
    "getelementptr " ++ element.text ++ ", " ++ base.typedText number ++ ", " ++
      index.typedText number
  | call callee arguments =>
    "call " ++ calleeText callee ++ "(" ++
      String.intercalate ", " (arguments.map (Value.typedText number)) ++ ")"
  | arithmetic operator left right =>
    operator.text ++ " " ++ left.typedText number ++ ", " ++ right.operandText number
  | negate operand => "fneg " ++ operand.typedText number
  | compareReal predicate left right =>
    "fcmp " ++ predicate.text ++ " " ++ left.typedText number ++ ", " ++ right.operandText number
  | compareEqual negated left right =>
    "icmp " ++ (if negated then "ne" else "eq") ++ " " ++ left.typedText number ++ ", " ++
      right.operandText number
  | convert conversion operand target =>
    conversion.text ++ " " ++ operand.typedText number ++ " to " ++ target.text

end Operation

structure Instruction where
  result : Option LocalName
  operation : Operation
deriving Repr

def Instruction.text (number : Nat → Nat) (instruction : Instruction) : String :=
  match instruction.result with
  | some name =>
    (Value.result name .void).operandText number ++ " = " ++ instruction.operation.text number
  | none => instruction.operation.text number

inductive Terminator where
  | jump (label : String)
  | branch (condition : Value) (whenTrue whenFalse : String)
  | ret (value : Option Value)
deriving Repr

namespace Terminator

def targets : Terminator → List String
  | jump label => [label]
  | branch _ whenTrue whenFalse => [whenTrue, whenFalse]
  | ret _ => []

def operands : Terminator → List Value
  | jump _ => []
  | branch condition _ _ => [condition]
  | ret value => value.toList

def text (number : Nat → Nat) : Terminator → String
  | jump label => "br label %" ++ Text.identifier label
  | branch condition whenTrue whenFalse =>
    "br " ++ condition.typedText number ++ ", label %" ++ Text.identifier whenTrue ++
      ", label %" ++ Text.identifier whenFalse
  | ret (some value) => "ret " ++ value.typedText number
  | ret none => "ret void"

end Terminator

end Kronk.IR
