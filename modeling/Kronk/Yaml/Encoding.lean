import Kronk.Text.Utf8

/-!
# The characters of a document

A document is stored as UTF-8, or as UTF-16 if a byte order mark in front says so.  The mark itself
is no part of the text.  Of the control characters only the tab, the line ends and the next line
character may stand in a document.
-/

namespace Kronk.Yaml

def isAllowed (c : Char) : Bool :=
  c == '\t' || c == '\n' || c == '\r' || c == '\u0085' || (0x20 ≤ c.toNat && c.toNat ≤ 0x7e) ||
    (0xa0 ≤ c.toNat && c.toNat ≤ 0xfffd) || 0x10000 ≤ c.toNat

def allowedChar? (code : Nat) : Option Char :=
  if (0xd800 ≤ code ∧ code ≤ 0xdfff) ∨ 0x10ffff < code then none
  else if isAllowed (Char.ofNat code) then some (Char.ofNat code)
  else none

/-- How many bytes a UTF-8 sequence has by its first byte, with the bits that byte adds. -/
def sequenceHead? (byte : UInt8) : Option (Nat × Nat) :=
  if byte < 0x80 then some (0, byte.toNat)
  else if 0xc0 ≤ byte ∧ byte < 0xe0 then some (1, byte.toNat % 32)
  else if 0xe0 ≤ byte ∧ byte < 0xf0 then some (2, byte.toNat % 16)
  else if 0xf0 ≤ byte ∧ byte < 0xf8 then some (3, byte.toNat % 8)
  else none

/-- The least number that needs so many further bytes. -/
def leastOf : Nat → Nat
  | 0 => 0
  | 1 => 0x80
  | 2 => 0x800
  | _ => 0x10000

def addTrailing? (code : Nat) : List UInt8 → Option Nat
  | [] => some code
  | byte :: rest =>
    if 0x80 ≤ byte ∧ byte < 0xc0 then addTrailing? (code * 64 + byte.toNat % 64) rest else none

def ofUtf8? : List UInt8 → Option (List Char)
  | [] => some []
  | byte :: rest => do
    let (count, bits) ← sequenceHead? byte
    let trailing := rest.take count
    if trailing.length < count then failure
    let code ← addTrailing? bits trailing
    if code < leastOf count then failure
    let c ← allowedChar? code
    return c :: (← ofUtf8? (rest.drop count))
termination_by bytes => bytes.length
decreasing_by simp only [List.length_drop, List.length_cons]; omega

/-- The units of UTF-16, the greater byte first or last. -/
def unitsOf? (bigEndian : Bool) : List UInt8 → Option (List Nat)
  | [] => some []
  | [_] => none
  | first :: second :: rest => do
    let unit := if bigEndian then first.toNat * 256 + second.toNat
      else second.toNat * 256 + first.toNat
    return unit :: (← unitsOf? bigEndian rest)

/-- The characters of UTF-16 units; two surrogates stand for one character. -/
def ofUnits? : List Nat → Option (List Char)
  | [] => some []
  | unit :: rest =>
    if 0xdc00 ≤ unit ∧ unit ≤ 0xdfff then none
    else if 0xd800 ≤ unit ∧ unit ≤ 0xdbff then
      match rest with
      | [] => none
      | low :: later => do
        if low < 0xdc00 ∨ 0xdfff < low then failure
        let c ← allowedChar? (0x10000 + (unit - 0xd800) * 1024 + (low - 0xdc00))
        return c :: (← ofUnits? later)
    else do
      let c ← allowedChar? unit
      return c :: (← ofUnits? rest)

def charsOf? (content : List UInt8) : Option (List Char) :=
  match content with
  | 0xff :: 0xfe :: rest => unitsOf? false rest >>= ofUnits?
  | 0xfe :: 0xff :: rest => unitsOf? true rest >>= ofUnits?
  | 0xef :: 0xbb :: 0xbf :: rest => ofUtf8? rest
  | _ => ofUtf8? content

end Kronk.Yaml
