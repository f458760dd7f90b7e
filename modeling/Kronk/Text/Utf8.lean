/-!
# Reading bytes as text

Source files are bytes.  They are read as UTF-8, and every byte that does not belong to a
well-formed sequence stands for one replacement character, so reading never fails.
-/

namespace Kronk.Text

/-- The character that stands for a byte outside every well-formed sequence. -/
def replacement : Char := '�'

/-- The six payload bits of a continuation byte, if the byte is one in `low..high`. -/
def continuation? (low high byte : UInt8) : Option Nat :=
  if low ≤ byte ∧ byte ≤ high then some (byte.toNat % 64) else none

/-- The character that starts a byte sequence, with the number of bytes it takes beyond the
first.  Overlong forms, surrogates and values above `U+10FFFF` are refused. -/
def leading? (byte : UInt8) (rest : List UInt8) : Option (Char × Nat) :=
  if byte < 0x80 then
    some (Char.ofNat byte.toNat, 0)
  else if 0xC2 ≤ byte ∧ byte ≤ 0xDF then do
    let second ← rest[0]? >>= continuation? 0x80 0xBF
    return (Char.ofNat ((byte.toNat % 32) * 64 + second), 1)
  else if 0xE0 ≤ byte ∧ byte ≤ 0xEF then do
    let low : UInt8 := if byte = 0xE0 then 0xA0 else 0x80
    let high : UInt8 := if byte = 0xED then 0x9F else 0xBF
    let second ← rest[0]? >>= continuation? low high
    let third ← rest[1]? >>= continuation? 0x80 0xBF
    return (Char.ofNat ((byte.toNat % 16) * 4096 + second * 64 + third), 2)
  else if 0xF0 ≤ byte ∧ byte ≤ 0xF4 then do
    let low : UInt8 := if byte = 0xF0 then 0x90 else 0x80
    let high : UInt8 := if byte = 0xF4 then 0x8F else 0xBF
    let second ← rest[0]? >>= continuation? low high
    let third ← rest[1]? >>= continuation? 0x80 0xBF
    let fourth ← rest[2]? >>= continuation? 0x80 0xBF
    return (Char.ofNat ((byte.toNat % 8) * 262144 + second * 4096 + third * 64 + fourth), 3)
  else
    none

/-- Reads bytes as characters, one replacement character per byte that fits nowhere. -/
def decodeBytes : List UInt8 → List Char
  | [] => []
  | byte :: rest =>
    match leading? byte rest with
    | some (c, extra) => c :: decodeBytes (rest.drop extra)
    | none => replacement :: decodeBytes rest
termination_by bytes => bytes.length
decreasing_by
  · simp only [List.length_drop, List.length_cons]; omega
  · simp only [List.length_cons]; omega

def decode (content : ByteArray) : String :=
  String.ofList (decodeBytes content.toList)

end Kronk.Text
