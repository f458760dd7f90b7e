import Kronk.Number.Binary64
import Kronk.Yaml.Timestamp

/-!
# Tags

The tag of a node says what it stands for.  A plain scalar has the one that its text suggests:
nothing, a truth value, a number, a point in time, or else a text.
-/

namespace Kronk.Yaml

inductive Tag where
  | null
  | boolean
  | integer
  | float
  | timestamp
  | merge
  | string
  | sequence
  | mapping
deriving DecidableEq, Repr

namespace Tag

def text : Tag → String
  | null => "!!null"
  | boolean => "!!bool"
  | integer => "!!int"
  | float => "!!float"
  | timestamp => "!!timestamp"
  | merge => "!!merge"
  | string => "!!str"
  | sequence => "!!seq"
  | mapping => "!!map"

/-! ## What the text of a scalar suggests -/

/-- The texts with a meaning of their own. -/
def words : List (Tag × List String) :=
  [(null, ["", "~", "null", "Null", "NULL"]),
    (boolean, ["true", "True", "TRUE", "false", "False", "FALSE"]),
    (float, [".nan", ".NaN", ".NAN", ".inf", ".Inf", ".INF", "+.inf", "+.Inf", "+.INF", "-.inf",
      "-.Inf", "-.INF"]),
    (merge, ["<<"])]

def ofWord? (text : String) : Option Tag :=
  (words.find? (fun entry => entry.2.contains text)).map Prod.fst

def withoutSign : List Char → List Char
  | '+' :: rest => rest
  | '-' :: rest => rest
  | text => text

def digitValue? (c : Char) : Option Nat :=
  if Decimal.isDigit c then some (c.toNat - '0'.toNat)
  else if 'a' ≤ c ∧ c ≤ 'f' then some (c.toNat - 'a'.toNat + 10)
  else if 'A' ≤ c ∧ c ≤ 'F' then some (c.toNat - 'A'.toNat + 10)
  else none

/-- The number that digits of a base stand for; at least one digit is needed. -/
def natOfBase? (base : Nat) (digits : List Char) : Option Nat :=
  if digits = [] then none
  else
    digits.foldlM (fun total c => do
      let digit ← digitValue? c
      if digit < base then some (base * total + digit) else none) 0

/-- The number that digits after a mark of their base stand for.  A leading zero marks base
eight. -/
def natOfMarked? : List Char → Option Nat
  | '0' :: 'x' :: digits => natOfBase? 16 digits
  | '0' :: 'X' :: digits => natOfBase? 16 digits
  | '0' :: 'o' :: digits => natOfBase? 8 digits
  | '0' :: 'O' :: digits => natOfBase? 8 digits
  | '0' :: 'b' :: digits => natOfBase? 2 digits
  | '0' :: 'B' :: digits => natOfBase? 2 digits
  | '0' :: c :: digits => natOfBase? 8 (c :: digits)
  | digits => natOfBase? 10 digits

/-- Whether a number with the sign in front of a text, if there is one, has 64 bits: as a signed
number, or without a sign as an unsigned one. -/
def fits (text : List Char) (value : Nat) : Bool :=
  match text with
  | '-' :: _ => value ≤ 0x8000000000000000
  | '+' :: _ => value < 0x8000000000000000
  | _ => value < 0x10000000000000000

/-- Whether a text is an integer of 64 bits.  The sign may also follow the mark of base two or
eight. -/
def isInteger (text : List Char) : Bool :=
  let signed (base : Nat) (digits : List Char) : Bool :=
    (natOfBase? base (withoutSign digits)).any (fits digits)
  (natOfMarked? (withoutSign text)).any (fits text) ||
    match text with
    | '0' :: 'b' :: digits => signed 2 digits
    | '0' :: 'o' :: digits => signed 8 digits
    | _ => false

def isDecimal (text : List Char) : Bool :=
  let lower := text.map (fun c => if c = 'E' then 'e' else c)
  (Decimal.read? lower >>= Binary64.ofDecimal?).isSome

/-- Whether every underscore of a text stands between two digits; `afterDigit` says that a digit
comes before it. -/
def underscoresFit (afterDigit : Bool) : List Char → Bool
  | [] => true
  | '_' :: rest => afterDigit && rest.head?.any Decimal.isDigit && underscoresFit false rest
  | c :: rest => underscoresFit (Decimal.isDigit c) rest

def withoutUnderscores (text : List Char) : List Char := text.filter (· ≠ '_')

/-- The tag of a text that starts like a number.  Underscores do not count, but if a point comes
first, they have to stand between digits. -/
def ofNumber? (text : List Char) : Option Tag :=
  let plain := withoutUnderscores text
  match text with
  | [] => none
  | c :: _ =>
    if c = '.' then
      if underscoresFit false text ∧ isDecimal plain then some float else none
    else if Decimal.isDigit c ∨ c = '+' ∨ c = '-' then
      if Timestamp.isTimestamp text then some timestamp
      else if isInteger plain then some integer
      else if isDecimal (withoutSign plain) then some float
      else none
    else none

/-- The tag that a text suggests. -/
def suggested (text : String) : Tag :=
  (ofWord? text).getD ((ofNumber? text.toList).getD string)

end Tag

end Kronk.Yaml
