/-!
# Decimal numerals

A decimal is a natural number scaled by a power of ten.  `Decimal.read?` accepts digits with at
most one point and an optional exponent; at least one digit must stand before the exponent.
-/

namespace Kronk

/-- The number `digits · 10 ^ exponent`. -/
structure Decimal where
  digits : Nat
  exponent : Int
deriving DecidableEq, Repr

namespace Decimal

def isDigit (c : Char) : Bool := '0' ≤ c && c ≤ '9'

def natOfDigits (digits : List Char) : Nat :=
  digits.foldl (fun value c => value * 10 + (c.toNat - '0'.toNat)) 0

/-- Reads what follows the exponent mark: an optional sign and at least one digit. -/
def readExponent? (text : List Char) : Option Int :=
  let (negative, digits) := match text with
    | '-' :: digits => (true, digits)
    | '+' :: digits => (false, digits)
    | digits => (false, digits)
  if digits ≠ [] ∧ digits.all isDigit then
    some (if negative then -(natOfDigits digits : Int) else natOfDigits digits)
  else
    none

def read? (text : List Char) : Option Decimal := do
  let whole := text.takeWhile isDigit
  let afterWhole := text.dropWhile isDigit
  let (fraction, afterFraction) := match afterWhole with
    | '.' :: tail => (tail.takeWhile isDigit, tail.dropWhile isDigit)
    | tail => ([], tail)
  if whole = [] ∧ fraction = [] then none
  else
    let scale ← match afterFraction with
      | [] => some 0
      | 'e' :: tail => readExponent? tail
      | _ => none
    return ⟨natOfDigits (whole ++ fraction), scale - fraction.length⟩

end Decimal

end Kronk
