import Kronk.Text.Printable
import Kronk.Text.Utf8

/-!
# Text in double quotes

Messages show a text in double quotes when its extent matters.  Printable characters stand for
themselves, the common control characters have a letter, and all else is written by its number:
a byte of no character in two hexadecimal digits, a character in four or eight.
-/

namespace Kronk.Text

/-- A number in lower-case hexadecimal digits, with zeros in front up to a width. -/
def hexNumber (width number : Nat) : List Char :=
  let digits := Nat.toDigits 16 number
  List.replicate (width - digits.length) '0' ++ digits

def literalChar (c : Char) : List Char :=
  match c with
  | '"' => ['\\', '"']
  | '\\' => ['\\', '\\']
  | '\x07' => ['\\', 'a']
  | '\x08' => ['\\', 'b']
  | '\x0c' => ['\\', 'f']
  | '\n' => ['\\', 'n']
  | '\r' => ['\\', 'r']
  | '\t' => ['\\', 't']
  | '\x0b' => ['\\', 'v']
  | _ =>
    if isPrintable c then [c]
    else if c.toNat < 0x80 then '\\' :: 'x' :: hexNumber 2 c.toNat
    else if c.toNat < 0x10000 then '\\' :: 'u' :: hexNumber 4 c.toNat
    else '\\' :: 'U' :: hexNumber 8 c.toNat

/-- Bytes as they are written in double quotes; a byte that belongs to no character is written by
its number. -/
def literalBytes : List UInt8 → List Char
  | [] => []
  | byte :: rest =>
    match leading? byte rest with
    | some (c, extra) => literalChar c ++ literalBytes (rest.drop extra)
    | none => '\\' :: 'x' :: hexNumber 2 byte.toNat ++ literalBytes rest
termination_by bytes => bytes.length
decreasing_by
  · simp only [List.length_drop, List.length_cons]; omega
  · simp only [List.length_cons]; omega

def literalOfBytes (content : List UInt8) : String :=
  "\"" ++ String.ofList (literalBytes content) ++ "\""

def literal (text : String) : String :=
  "\"" ++ String.ofList (text.toList.flatMap literalChar) ++ "\""

end Kronk.Text
