import Kronk.Number.Binary64

/-!
# The fewest digits that read back

A finite word is written with the fewest decimal digits that round to it again; among those of
equal length the nearest is taken, and of two equally near ones the even one.  The digits are
found by exact arithmetic on the interval of numbers that round to the word.  How digits become
text is a `Layout`, fixed by whoever writes the output.
-/

namespace Kronk.Binary64

/-- Decimal digits `d₁d₂…dₙ` with the power of ten of the first one: `d₁.d₂…dₙ · 10 ^ exponent`. -/
structure Digits where
  digits : List Char
  exponent : Int
deriving DecidableEq, Repr

/-- A rational number as a quotient; the denominator is positive wherever it is used. -/
structure Quotient where
  numerator : Nat
  denominator : Nat

namespace Quotient

def scaleTen (x : Quotient) (power : Int) : Quotient :=
  if 0 ≤ power then ⟨x.numerator * Nat.pow 10 power.toNat, x.denominator⟩
  else ⟨x.numerator, x.denominator * Nat.pow 10 (-power).toNat⟩

def lt (x y : Quotient) : Bool := x.numerator * y.denominator < y.numerator * x.denominator

def same (x y : Quotient) : Bool := x.numerator * y.denominator == y.numerator * x.denominator

end Quotient

/-- The quotient `n · 2 ^ (scale - 1076)`, the unit in which half the gaps between words are
whole. -/
def quarterUnits (n scale : Nat) : Quotient :=
  if 1076 ≤ scale then ⟨n * Nat.pow 2 (scale - 1076), 1⟩ else ⟨n, Nat.pow 2 (1076 - scale)⟩

/-- The numbers that round to a word: an interval whose ends belong to it when `closed`. -/
structure Rounding where
  low : Quotient
  value : Quotient
  high : Quotient
  closed : Bool

/-- The interval of numbers that round to a finite positive word.  Below a power of two the gap to
the next word is half as wide. -/
def rounding (x : Binary64) : Rounding :=
  let m := x.significand
  let gap := if m = fractionUnit ∧ 0 < x.scale then 1 else 2
  { low := quarterUnits (4 * m - gap) x.scale
    value := quarterUnits (4 * m) x.scale
    high := quarterUnits (4 * m + 2) x.scale
    closed := m % 2 == 0 }

def Rounding.contains (interval : Rounding) (x : Quotient) : Bool :=
  (interval.low.lt x || (interval.closed && interval.low.same x)) &&
    (x.lt interval.high || (interval.closed && x.same interval.high))

/-- The point of the grid of multiples of `10 ^ unit` that stands for the word: one of the two
neighbours of its value, if any of them rounds to it. -/
def Rounding.onGrid? (interval : Rounding) (unit : Int) : Option Nat :=
  let scaled := interval.value.scaleTen (-unit)
  let below := scaled.numerator / scaled.denominator
  let twice := 2 * (scaled.numerator % scaled.denominator)
  let fits (n : Nat) : Bool := interval.contains ((Quotient.mk n 1).scaleTen unit)
  let above := below + 1
  if fits below then
    if fits above then
      if twice < scaled.denominator then some below
      else if scaled.denominator < twice then some above
      else if below % 2 = 0 then some below
      else some above
    else some below
  else if fits above then some above
  else none

/-- The power of ten of the first digit of a positive quotient, searched upwards from an
estimate that is never too large. -/
def leadingPower (x : Quotient) : Int :=
  let estimate : Int :=
    (Nat.log2 x.numerator : Int) - Nat.log2 x.denominator - 1
  let start : Int := (estimate * 30103).fdiv 100000 - 1
  let rec climb : Nat → Int → Int
    | 0, power => power
    | fuel + 1, power =>
      if x.lt ((Quotient.mk 1 1).scaleTen (power + 1)) then power else climb fuel (power + 1)
  climb 4 start

def dropTrailingZeros (digits : List Char) : List Char :=
  (digits.reverse.dropWhile (· = '0')).reverse

/-- Tries grids of more and more digits, starting with `count` of them. -/
def shortestFrom (interval : Rounding) (power : Int) : (fuel : Nat) → (count : Nat) → Digits
  | 0, _ => ⟨['0'], 0⟩
  | fuel + 1, count =>
    match interval.onGrid? (power - (count - 1 : Nat)) with
    | some n =>
      let digits := Nat.toDigits 10 n
      ⟨dropTrailingZeros digits, power - (count - 1 : Nat) + (digits.length - 1 : Nat)⟩
    | none => shortestFrom interval power fuel (count + 1)

/-- The fewest digits that read back as the magnitude of a finite word. -/
def shortest (x : Binary64) : Digits :=
  if x.magnitudeBits = 0 then ⟨['0'], 0⟩
  else
    let interval := x.rounding
    shortestFrom interval (leadingPower interval.value) 18 1

/-- Whether the digits are the exact magnitude of the word, and not only round to it. -/
def isExact (x : Binary64) (digits : Digits) : Bool :=
  let value := Decimal.natOfDigits digits.digits
  let unit := digits.exponent - (digits.digits.length - 1 : Nat)
  (quarterUnits (4 * x.significand) x.scale).same ((Quotient.mk value 1).scaleTen unit)

/-- Which decimal exponents are written positionally; all others take an exponent mark. -/
structure Layout where
  lowest : Int
  above : Int

def exponentText (exponent : Int) : String :=
  let digits := toString exponent.natAbs
  let padded := if digits.length < 2 then "0" ++ digits else digits
  (if exponent < 0 then "e-" else "e+") ++ padded

def positional (value : Digits) : String :=
  if value.exponent < 0 then
    "0." ++ String.ofList (List.replicate (-value.exponent - 1).toNat '0' ++ value.digits)
  else
    let whole := value.exponent.toNat + 1
    if value.digits.length ≤ whole then
      String.ofList (value.digits ++ List.replicate (whole - value.digits.length) '0')
    else
      String.ofList (value.digits.take whole ++ '.' :: value.digits.drop whole)

def scientific (value : Digits) : String :=
  let mantissa := match value.digits with
    | [] => ""
    | [first] => String.ofList [first]
    | first :: rest => String.ofList (first :: '.' :: rest)
  mantissa ++ exponentText value.exponent

def Layout.write (layout : Layout) (value : Digits) : String :=
  if value.exponent < layout.lowest ∨ layout.above ≤ value.exponent then scientific value
  else positional value

/-- Numbers in messages and in emitted code: exponents from -4 to 5 are written positionally. -/
def general : Layout := ⟨-4, 6⟩

def text (x : Binary64) : String :=
  (if x.isNegative then "-" else "") ++ general.write x.shortest

end Kronk.Binary64
