import Kronk.Lowering.Fragment.Assignment
import Kronk.Lowering.Fragment.Entity
import Kronk.Lowering.Fragment.Operation

/-!
# Lowering of expressions

Every form of expression has its fragment.
-/

namespace Kronk.Lowering

open Source (Expr)

mutual

def lower : Expr → Fragment
  | .boolean line value => .ofValue line (return ⟨.boolean value, .bool, false⟩)
  | .number line value => .ofValue line (return ⟨.real value, .real, false⟩)
  | .string line value => stringLiteral line value
  | .identifier line name => identifier line name
  | .list line elements => listLiteral line (lowerAll elements)
  | .index line list index => elementOf line (lower list) (lower index)
  | .slice line list start stop =>
    sliceOf line (lower list) (lowerOption start) (lowerOption stop)
  | .entity line name symbol fields => entityLiteral line name symbol (lowerOptions fields)
  | .field line entity name => fieldOf line (lower entity) name
  | .binary line operator left right => binary line operator (lower left) (lower right)
  | .unary line operator operand => unary line operator (lower operand)
  | .assignment line target value => assignment line (lower target) (lower value)
  | .call line callee arguments => call line callee (lowerAll arguments)

def lowerAll : List Expr → List Fragment
  | [] => []
  | expression :: rest => lower expression :: lowerAll rest

def lowerOption : Option Expr → Option Fragment
  | none => none
  | some expression => some (lower expression)

def lowerOptions : List (Option Expr) → List (Option Fragment)
  | [] => []
  | expression :: rest => lowerOption expression :: lowerOptions rest

end

end Kronk.Lowering
