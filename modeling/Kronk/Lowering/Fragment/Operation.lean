import Kronk.Lowering.Fragment.Call
import Kronk.Lowering.Fragment.List

/-!
# Fragments of operators

Operators work on two booleans, on two reals, or join two lists.
-/

namespace Kronk.Lowering

open Lower

def realPredicate? : Operator → Option IR.RealPredicate
  | .less => some .olt
  | .greater => some .ogt
  | .lessEqual => some .ole
  | .greaterEqual => some .oge
  | .equal => some .oeq
  | .notEqual => some .one
  | _ => none

def bitwise? : Operator → Option IR.Arithmetic
  | .shiftLeft => some .shl
  | .shiftRight => some .ashr
  | .bitAnd => some .and
  | .bitXor => some .xor
  | .bitOr => some .or
  | _ => none

def realArithmetic? : Operator → Option IR.Arithmetic
  | .times => some .fmul
  | .divide => some .fdiv
  | .modulo => some .frem
  | .plus => some .fadd
  | .minus => some .fsub
  | _ => none

def booleanOperation? (left right : IR.Value) : Operator → Option IR.Operation
  | .equal => some (.compareEqual false left right)
  | .notEqual => some (.compareEqual true left right)
  | .and => some (.arithmetic .and left right)
  | .or => some (.arithmetic .or left right)
  | _ => none

def integerParts (operator : IR.Arithmetic) (left right : IR.Value) : Emit IR.Value := do
  let leftPart ← Emit.compute (.convert .fptosi left .i64)
  let rightPart ← Emit.compute (.convert .fptosi right .i64)
  let result ← Emit.compute (.arithmetic operator leftPart rightPart)
  Emit.compute (.convert .sitofp result .double)

/-- An operator between two reals.  A divisor is checked at run time. -/
def realBinary (line : Nat) (operator : Operator) (left right : IR.Value) : Lower Operand := do
  match realPredicate? operator with
  | some predicate =>
    return ⟨← emit (Emit.compute (.compareReal predicate left right)), .bool, false⟩
  | none =>
  match bitwise? operator with
  | some bitwise => return ⟨← emit (integerParts bitwise left right), .real, false⟩
  | none =>
  match realArithmetic? operator with
  | some arithmetic =>
    if operator = .divide then check .divisorCheck line [right]
    return ⟨← emit (Emit.compute (.arithmetic arithmetic left right)), .real, false⟩
  | none =>
  match operator, Catalogue.function? "math" "puiss" with
  | .power, some power =>
    match ← emit (callSignature power [left, right]) with
    | some result => return result
    | none => fail line .noValue
  | _, _ => fail line (.realOperator operator)

def binaryOperation (line : Nat) (operator : Operator) (left right : Operand) :
    Lower Operand := do
  if left.type.isAggregate || right.type.isAggregate then
    match left.type, right.type with
    | .list element, .list other =>
      if operator ≠ .plus then fail line .onlyConcatenation
      if !element.same other then fail line .concatenation
      recordFresh (← emit (concatenation left.value right.value element)) left.type
    | _, _ => fail line .notBothLists
  else if left.type.isBool && right.type.isBool then
    match booleanOperation? left.value right.value operator with
    | some operation => return ⟨← emit (Emit.compute operation), .bool, false⟩
    | none => fail line (.booleanOperator operator)
  else if left.type.isNumeric && right.type.isNumeric then
    let leftReal ← widen left
    let rightReal ← widen right
    realBinary line operator leftReal.value rightReal.value
  else fail line (.operandTypes operator)

/-- A binary operator; both sides are computed before anything else. -/
def binary (line : Nat) (operator : Operator) (left right : Fragment) : Fragment :=
  .ofValue line do
    let leftOperand ← left.value
    let rightOperand ← right.value
    binaryOperation line operator leftOperand rightOperand

def unaryOperation (line : Nat) (operator : Operator) (operand : Operand) : Lower Operand := do
  if operand.type.isBool then
    if operator ≠ .not then fail line (.unaryBoolean operator)
    let operation := IR.Operation.arithmetic .xor operand.value (.boolean true)
    return ⟨← emit (Emit.compute operation), .bool, false⟩
  else if operand.type.isNumeric then
    let real ← widen operand
    match operator with
    | .minus => return ⟨← emit (Emit.compute (.negate real.value)), .real, false⟩
    | .complement =>
      let part ← emit (Emit.compute (.convert .fptosi real.value .i64))
      let flipped ← emit (Emit.compute (.arithmetic .xor part (.int64 (-1))))
      return ⟨← emit (Emit.compute (.convert .sitofp flipped .double)), .real, false⟩
    | _ => fail line (.unaryReal operator)
  else fail line (.unaryOperand operator)

def unary (line : Nat) (operator : Operator) (operand : Fragment) : Fragment :=
  .ofValue line do unaryOperation line operator (← operand.value)

end Kronk.Lowering
