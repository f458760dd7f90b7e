/-!
# Quoted text in emitted code

Emitted code writes a byte that is not plain text as a backslash and two hexadecimal digits.
Identifiers of letters, digits, `$`, `-`, `.` and `_` stand as they are; all others are quoted.
-/

namespace Kronk.Text

def hexDigit (value : Nat) : Char :=
  if value < 10 then Char.ofNat (value + '0'.toNat) else Char.ofNat (value - 10 + 'A'.toNat)

def isPlainByte (byte : UInt8) : Bool :=
  0x20 ≤ byte && byte ≤ 0x7E && byte != 0x22 && byte != 0x5C

def escapeByte (byte : UInt8) : List Char :=
  if isPlainByte byte then [Char.ofNat byte.toNat]
  else ['\\', hexDigit (byte.toNat / 16), hexDigit (byte.toNat % 16)]

def escape (bytes : List UInt8) : String := String.ofList (bytes.flatMap escapeByte)

def bytes (text : String) : List UInt8 := text.toUTF8.toList

def quote (text : String) : String := "\"" ++ escape (bytes text) ++ "\""

def isIdentifierChar (c : Char) : Bool :=
  ('a' ≤ c && c ≤ 'z') || ('A' ≤ c && c ≤ 'Z') || ('0' ≤ c && c ≤ '9') ||
    c == '$' || c == '-' || c == '.' || c == '_'

/-- An identifier, quoted if it has to be; one that is all digits would read as a number. -/
def identifier (name : String) : String :=
  if name.toList.all isIdentifierChar && !name.toList.all (fun c => '0' ≤ c && c ≤ '9') then name
  else quote name

end Kronk.Text
