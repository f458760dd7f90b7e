import Kronk.Number.Decimal

/-!
# Double precision numbers as words

A number of the language is a binary64 word.  Nothing is ever computed with it at compile time:
literals are rounded to a word once, and words are written back as text.  Both directions are
exact integer arithmetic on the fields of the word.
-/

namespace Kronk

/-- An IEEE 754 double given by its bits. -/
structure Binary64 where
  bits : UInt64
deriving DecidableEq, Repr, Inhabited

namespace Binary64

def zero : Binary64 := ⟨0⟩

/-- The least word that is not a finite positive number. -/
def infinityBits : Nat := 0x7FF0000000000000

/-- The place value of the sign bit. -/
def signUnit : Nat := 0x8000000000000000

/-- The place value of the lowest bit above the fraction field. -/
def fractionUnit : Nat := 0x10000000000000

def isNegative (x : Binary64) : Bool := decide (signUnit ≤ x.bits.toNat)

/-- The word with its sign bit cleared, as a number. -/
def magnitudeBits (x : Binary64) : Nat := x.bits.toNat % signUnit

def negate (x : Binary64) : Binary64 := ⟨x.bits ^^^ 0x8000000000000000⟩

/-- The significand `m` of a finite word whose magnitude is `m · 2 ^ (scale - 1074)`. -/
def significand (x : Binary64) : Nat :=
  if x.magnitudeBits / fractionUnit = 0 then x.magnitudeBits
  else fractionUnit + x.magnitudeBits % fractionUnit

/-- The distance of the binary exponent of a finite word from the least one, `-1074`. -/
def scale (x : Binary64) : Nat := x.magnitudeBits / fractionUnit - 1

/-- The quotient of two natural numbers rounded to the nearest one, a half to the even one. -/
def roundQuotient (numerator denominator : Nat) : Nat :=
  let quotient := numerator / denominator
  let twice := 2 * (numerator % denominator)
  if twice < denominator then quotient
  else if denominator < twice then quotient + 1
  else if quotient % 2 = 0 then quotient
  else quotient + 1

/-- The word nearest to `numerator / denominator`, both positive; nothing if it is too large for
a finite word.  The significand is cut at the unit `2 ^ (scale - 1074)` in which the quotient has
53 bits, or at the least unit when it is smaller than that. -/
def ofQuotient? (numerator denominator : Nat) : Option Binary64 :=
  let estimate : Int := (Nat.log2 numerator : Int) - Nat.log2 denominator
  let below : Bool :=
    if 0 ≤ estimate then numerator < denominator * Nat.pow 2 estimate.toNat
    else numerator * Nat.pow 2 (-estimate).toNat < denominator
  let magnitude : Int := if below then estimate - 1 else estimate
  let unit : Int := max (magnitude - 52) (-1074)
  let significand :=
    if 0 ≤ unit then roundQuotient numerator (denominator * Nat.pow 2 unit.toNat)
    else roundQuotient (numerator * Nat.pow 2 (-unit).toNat) denominator
  let bits := (unit + 1074).toNat * fractionUnit + significand
  if bits < infinityBits then some ⟨bits.toUInt64⟩ else none

/-- The word nearest to a decimal, a half to the even word; nothing if it is too large for a
finite word.  Decimals far outside the range are settled without computing their power of ten. -/
def ofDecimal? (value : Decimal) : Option Binary64 :=
  if value.digits = 0 then some zero
  else
    let width : Int := (Nat.toDigits 10 value.digits).length
    if 400 < value.exponent + width then none
    else if value.exponent + width < -400 then some zero
    else if 0 ≤ value.exponent then ofQuotient? (value.digits * Nat.pow 10 value.exponent.toNat) 1
    else ofQuotient? value.digits (Nat.pow 10 (-value.exponent).toNat)

end Binary64

end Kronk
