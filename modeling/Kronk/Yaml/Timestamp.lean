import Kronk.Number.Decimal

/-!
# Points in time

A point in time is a date, or a date and a time of day.  The year has four digits, the other numbers
have one or two.  The time follows after a `T` and then has a zone, or after spaces and then has
none.
-/

namespace Kronk.Yaml.Timestamp

def shortNumber? : List Char → Option (Nat × List Char)
  | [] => none
  | c :: rest =>
    let digits := c :: rest.take 1
    if !Decimal.isDigit c then none
    else if digits.all Decimal.isDigit then
      some (Decimal.natOfDigits digits, rest.drop 1)
    else some (Decimal.natOfDigits [c], rest)

/-- A number in front of a text that is at least `least` and less than `bound`, with the rest. -/
def numberBelow? (least bound : Nat) (text : List Char) : Option (Nat × List Char) := do
  let (number, rest) ← shortNumber? text
  if least ≤ number ∧ number < bound then some (number, rest) else none

def after? (c : Char) : List Char → Option (List Char)
  | [] => none
  | first :: rest => if first = c then some rest else none

def isLeapYear (year : Nat) : Bool := year % 4 == 0 && (year % 100 != 0 || year % 400 == 0)

def daysIn (year month : Nat) : Nat :=
  if month = 2 then (if isLeapYear year then 29 else 28)
  else if [4, 6, 9, 11].contains month then 30
  else 31

def afterDate? (text : List Char) : Option (List Char) := do
  let digits := text.takeWhile Decimal.isDigit
  if digits.length ≠ 4 then none
  else
    let year := Decimal.natOfDigits digits
    let rest ← after? '-' (text.drop 4)
    let (month, rest) ← numberBelow? 1 13 rest
    let rest ← after? '-' rest
    let (_, rest) ← numberBelow? 1 (daysIn year month + 1) rest
    return rest

def afterFraction : List Char → List Char
  | [] => []
  | c :: rest =>
    if (c = '.' ∨ c = ',') ∧ rest.head?.any Decimal.isDigit then rest.dropWhile Decimal.isDigit
    else c :: rest

def afterTime? (text : List Char) : Option (List Char) := do
  let (_, rest) ← numberBelow? 0 24 text
  let rest ← after? ':' rest
  let (_, rest) ← numberBelow? 0 60 rest
  let rest ← after? ':' rest
  let (_, rest) ← numberBelow? 0 60 rest
  return afterFraction rest

/-- Whether a text is a time zone: `Z`, or hours and minutes with a sign. -/
def isZone : List Char → Bool
  | ['Z'] => true
  | [sign, a, b, ':', c, d] =>
    (sign == '+' || sign == '-') && [a, b, c, d].all Decimal.isDigit &&
      Decimal.natOfDigits [a, b] ≤ 24 && Decimal.natOfDigits [c, d] ≤ 60
  | _ => false

def isTimestamp (text : List Char) : Bool :=
  match afterDate? text with
  | none => false
  | some [] => true
  | some (c :: rest) =>
    if c = 'T' ∨ c = 't' then (afterTime? rest).any isZone
    else if c = ' ' then afterTime? (rest.dropWhile (· = ' ')) == some []
    else false

end Kronk.Yaml.Timestamp
