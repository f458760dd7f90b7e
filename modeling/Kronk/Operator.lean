/-!
# Operators and how tightly they bind

Every operator of the language has a spelling and a precedence.  All of them can stand between
two operands; `minus`, `not` and `complement` can also stand before one.
-/

namespace Kronk

inductive Operator where
  | not
  | complement
  | power
  | times
  | divide
  | modulo
  | plus
  | minus
  | shiftLeft
  | shiftRight
  | bitAnd
  | bitXor
  | bitOr
  | less
  | greater
  | lessEqual
  | greaterEqual
  | equal
  | notEqual
  | and
  | or
  | assign
deriving DecidableEq, Repr

namespace Operator

def all : List Operator :=
  [not, complement, power, times, divide, modulo, plus, minus, shiftLeft, shiftRight, bitAnd,
    bitXor, bitOr, less, greater, lessEqual, greaterEqual, equal, notEqual, and, or, assign]

def spelling : Operator → String
  | not => "non"
  | complement => "~"
  | power => "**"
  | times => "*"
  | divide => "/"
  | modulo => "mod"
  | plus => "+"
  | minus => "-"
  | shiftLeft => "<<"
  | shiftRight => ">>"
  | bitAnd => "&"
  | bitXor => "^"
  | bitOr => "|"
  | less => "<"
  | greater => ">"
  | lessEqual => "<="
  | greaterEqual => ">="
  | equal => "=="
  | notEqual => "!="
  | and => "et"
  | or => "ou"
  | assign => "="

def ofSpelling? (text : String) : Option Operator :=
  all.find? (fun operator => operator.spelling == text)

/-- How tightly the operator binds; more is tighter. -/
def precedence : Operator → Nat
  | not | complement => 100
  | power => 90
  | times | divide | modulo => 80
  | plus | minus => 70
  | shiftLeft | shiftRight => 60
  | bitAnd => 50
  | bitXor => 40
  | bitOr => 30
  | less | greater | lessEqual | greaterEqual | equal | notEqual => 20
  | and => 10
  | or => 8
  | assign => 1

/-- Whether the operator compares; comparisons chain. -/
def isRelational : Operator → Bool
  | less | greater | lessEqual | greaterEqual | equal | notEqual => true
  | _ => false

def isRightAssociative : Operator → Bool
  | power | assign => true
  | _ => false

def isUnary : Operator → Bool
  | minus | not | complement => true
  | _ => false

end Operator

end Kronk
