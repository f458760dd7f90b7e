import Kronk.Text.Literal

/-!
# Addresses of repositories

An address has a scheme, an authority with an optional user and port, a path, a query and a
fragment.  Only its form matters here, and the scheme says how a repository is reached.  Addresses
are checked byte by byte: a percent sign and two hexadecimal digits stand for a byte, which in the
name of a host may only be one outside of ASCII.
-/

namespace Kronk

inductive AddressError where
  | control
  | noScheme
  | colonInSegment
  | openBracket
  | port (text : List UInt8)
  | escape (text : List UInt8)
  | hostByte (byte : UInt8)
  | userInfo
deriving DecidableEq, Repr

def AddressError.message : AddressError → String
  | control => "net/url: invalid control character in URL"
  | noScheme => "missing protocol scheme"
  | colonInSegment => "first path segment in URL cannot contain colon"
  | openBracket => "missing ']' in host"
  | port text => "invalid port " ++ Text.literalOfBytes text ++ " after host"
  | escape text => "invalid URL escape " ++ Text.literalOfBytes text
  | hostByte byte => "invalid character " ++ Text.literalOfBytes [byte] ++ " in host name"
  | userInfo => "net/url: invalid userinfo"

namespace Address

def byte (c : Char) : UInt8 := c.toNat.toUInt8

def isOneOf (characters : String) (b : UInt8) : Bool := characters.toList.any (byte · == b)

def isLetter (b : UInt8) : Bool :=
  (byte 'a' ≤ b && b ≤ byte 'z') || (byte 'A' ≤ b && b ≤ byte 'Z')

def isDigit (b : UInt8) : Bool := byte '0' ≤ b && b ≤ byte '9'

def hexValue? (b : UInt8) : Option Nat :=
  if isDigit b then some (b.toNat - 48)
  else if byte 'a' ≤ b ∧ b ≤ byte 'f' then some (b.toNat - 87)
  else if byte 'A' ≤ b ∧ b ≤ byte 'F' then some (b.toNat - 55)
  else none

/-- The part of a text before the first byte of a kind, and the part after it. -/
def cut (separator : Char) (text : List UInt8) : List UInt8 × List UInt8 :=
  (text.takeWhile (· ≠ byte separator), (text.dropWhile (· ≠ byte separator)).drop 1)

/-- The part of a text before the last byte of a kind, and the part from it on; nothing if there is
no such byte. -/
def cutLast? (separator : Char) (text : List UInt8) : Option (List UInt8 × List UInt8) :=
  match text.reverse.dropWhile (· ≠ byte separator) with
  | [] => none
  | _ :: before => some (before.reverse, text.drop before.length)

/-! ## Escapes -/

/-- The parts of an address that have rules of their own for bytes. -/
inductive Part where
  | host
  | zone
  | other
deriving DecidableEq, Repr

def isHostByte (b : UInt8) : Bool :=
  isLetter b || isDigit b || 0x80 ≤ b || isOneOf "-_.~!$&'()*+,;=:[]<>\"" b

/-- Whether an escaped byte may stand in a part.  A percent sign may be escaped everywhere. -/
def mayEscape (part : Part) (value : Nat) : Bool :=
  match part with
  | .host => 0x80 ≤ value || value == 0x25
  | .zone => value == 0x25 || value == 0x20 || (isHostByte value.toUInt8 && value < 0x80)
  | .other => true

def checkPart (part : Part) : List UInt8 → Except AddressError Unit
  | [] => .ok ()
  | b :: rest =>
    if b = byte '%' then
      match rest with
      | high :: low :: later =>
        match hexValue? high, hexValue? low with
        | some h, some l =>
          if mayEscape part (16 * h + l) then checkPart part later
          else .error (.escape [b, high, low])
        | _, _ => .error (.escape [b, high, low])
      | _ => .error (.escape (b :: rest))
    else if part ≠ .other ∧ !isHostByte b then .error (.hostByte b)
    else checkPart part rest

/-! ## The authority -/

/-- Whether a text is empty or a colon with digits after it. -/
def isPort : List UInt8 → Bool
  | [] => true
  | b :: rest => b == byte ':' && rest.all isDigit

/-- The place of an escaped percent sign, which starts a zone. -/
def zoneStart? : List UInt8 → Option Nat
  | [] => none
  | b :: rest =>
    if (b :: rest).take 3 = [byte '%', byte '2', byte '5'] then some 0
    else (zoneStart? rest).map (· + 1)

/-- Checks a host and its port.  A host in square brackets may have a zone. -/
def checkHost (host : List UInt8) : Except AddressError Unit := do
  if host.head? = some (byte '[') then
    match cutLast? ']' host with
    | none => throw .openBracket
    | some (inner, closing) =>
      if !isPort (closing.drop 1) then throw (.port (closing.drop 1))
      match zoneStart? inner with
      | some start =>
        checkPart .host (host.take start)
        checkPart .zone (inner.drop start)
        checkPart .host closing
      | none => checkPart .host host
  else
    match cutLast? ':' host with
    | some (_, port) => if !isPort port then throw (.port port)
    | none => pure ()
    checkPart .host host

def isUserByte (b : UInt8) : Bool := isLetter b || isDigit b || isOneOf "-._:~!$&'()*+,;=%@" b

/-- Checks an authority: a host, and a user in front of the last at sign. -/
def checkAuthority (authority : List UInt8) : Except AddressError Unit := do
  match cutLast? '@' authority with
  | none => checkHost authority
  | some (user, host) =>
    checkHost (host.drop 1)
    if !user.all isUserByte then throw .userInfo
    let (name, password) := cut ':' user
    checkPart .other name
    checkPart .other password

/-! ## The whole address -/

def scheme? (address : List UInt8) : Except AddressError (Option (List UInt8 × List UInt8)) :=
  let isSchemeByte (b : UInt8) : Bool := isLetter b || isDigit b || isOneOf "+-." b
  let scheme := address.takeWhile isSchemeByte
  match address.drop scheme.length with
  | [] => .ok none
  | b :: rest =>
    if b ≠ byte ':' then .ok none
    else
      match scheme with
      | [] => .error .noScheme
      | first :: _ => .ok (if isLetter first then some (scheme, rest) else none)

/-- Checks an address without its fragment; gives its scheme, if it has one. -/
def checkBody (body : List UInt8) : Except AddressError (Option (List UInt8)) := do
  if body.any (fun b => b < 0x20 || b == 0x7f) then throw .control
  let found ← scheme? body
  let (rest, _) := cut '?' (found.elim body Prod.snd)
  let (segment, _) := cut '/' rest
  if rest.head? ≠ some (byte '/') then
    if found.isSome then return found.map Prod.fst
    if segment.contains (byte ':') then throw .colonInSegment
  match rest with
  | 0x2f :: 0x2f :: authority =>
    if found.isSome || authority.head? ≠ some (byte '/') then
      let host := authority.takeWhile (· ≠ byte '/')
      checkAuthority host
      checkPart .other (authority.drop host.length)
    else checkPart .other rest
  | _ => checkPart .other rest
  return found.map Prod.fst

def toLower (b : UInt8) : UInt8 := if byte 'A' ≤ b ∧ b ≤ byte 'Z' then b + 32 else b

/-- The scheme of an address in lower case, or why it is none.  A report shows the address, and
without its fragment if that is not what is wrong. -/
def scheme (address : String) : Except (String × AddressError) (Option String) := do
  let bytes := address.toUTF8.toList
  let (body, fragment) := cut '#' bytes
  let found ←
    match checkBody body with
    | .ok found => pure found
    | .error error => throw (Text.literalOfBytes body, error)
  match checkPart .other fragment with
  | .ok _ => pure ()
  | .error error => throw (Text.literalOfBytes bytes, error)
  return found.map (fun scheme => String.ofList (Text.decodeBytes (scheme.map toLower)))

end Address

end Kronk
