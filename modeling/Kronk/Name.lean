import Kronk.Failure
import Kronk.Number.Decimal

/-!
# Mangled names

Types and functions are known across modules by mangled names, which hold the id of their module
and their name as written.  A type is `Entity.<module>::<name>`; a function is `_Z` followed by the
module and the name, each preceded by its length in bytes.  `demangle` splits a mangled name again.
-/

namespace Kronk

inductive NameKind where
  | type
  | function
deriving DecidableEq, Repr

structure NameParts where
  kind : NameKind
  module : String
  symbol : String
deriving DecidableEq, Repr

/-- Why a text is no mangled name.  `outOfBounds` is the answer to a length whose end wraps around
the 64-bit range and so falls before its start: cutting the piece out is a panic. -/
inductive DemangleError where
  | malformedType
  | malformedFunction
  | notMangled
  | outOfBounds (stop : Int)
deriving DecidableEq, Repr

def DemangleError.message (name : String) : DemangleError → String
  | malformedType => "malformed type name `" ++ name ++ "`"
  | malformedFunction => "malformed function name `" ++ name ++ "`"
  | notMangled => "`" ++ name ++ "` is not a mangled name"
  | outOfBounds stop =>
    "runtime error: slice bounds out of range [:" ++ toString stop ++ "]"

/-- A name that cannot be split is a plain failure, unless splitting it is a panic. -/
def DemangleError.failure (name : String) (error : DemangleError) : Failure :=
  match error with
  | outOfBounds _ => .panic (error.message name)
  | _ => .plain (error.message name)

namespace Name

def typeMark : String := "Entity."

def functionMark : String := "_Z"

def typeSeparator : String := "::"

def ofType (module name : String) : String := typeMark ++ module ++ typeSeparator ++ name

/-- A text after its length in bytes. -/
def sized (text : String) : String := toString text.utf8ByteSize ++ text

def ofFunction (module name : String) : String := functionMark ++ sized module ++ sized name

/-- The id of a module that `module` includes under the alias `localName`. -/
def includeId (module localName : String) : String := module ++ "_" ++ localName

def ofForeignType (module localName name : String) : String :=
  ofType (includeId module localName) name

def ofForeignFunction (module localName name : String) : String :=
  ofFunction (includeId module localName) name

def mangle : NameKind → (module name : String) → String
  | .type => ofType
  | .function => ofFunction

def afterMark? (mark : String) (text : List Char) : Option (List Char) :=
  if mark.toList.isPrefixOf text then some (text.drop mark.length) else none

def splitScope? : List Char → Option (List Char × List Char)
  | [] => none
  | [_] => none
  | c :: d :: rest =>
    if c = ':' ∧ d = ':' then some ([], rest)
    else (splitScope? (d :: rest)).map (fun parts => (c :: parts.1, parts.2))

/-- The first `count` bytes of a text and the rest, if a character ends there. -/
def takeBytes? : (count : Nat) → List Char → Option (List Char × List Char)
  | 0, text => some ([], text)
  | _ + 1, [] => none
  | count + 1, c :: rest =>
    if c.utf8Size ≤ count + 1 then
      (takeBytes? (count + 1 - c.utf8Size) rest).map (fun parts => (c :: parts.1, parts.2))
    else none

def byteCount : List Char → Nat
  | [] => 0
  | c :: rest => c.utf8Size + byteCount rest

/-- The signed 64-bit number that a sum wraps to. -/
def wrap (sum : Int) : Int := Int.bmod sum 0x10000000000000000

/-- The first length that is no signed 64-bit number. -/
def lengthBound : Nat := 0x8000000000000000

/-- Reads a length and as many bytes after it.  The length must be below `lengthBound`; where the
piece ends is computed in 64 bits. -/
def readSized (text : List Char) : Except DemangleError (List Char × List Char) :=
  let digits := text.takeWhile Decimal.isDigit
  let start := digits.length
  let length := Decimal.natOfDigits digits
  let stop := wrap (start + length)
  if digits = [] ∨ lengthBound ≤ length then .error .malformedFunction
  else if byteCount text < stop then .error .malformedFunction
  else if stop < start then .error (.outOfBounds stop)
  else
    match takeBytes? length (text.dropWhile Decimal.isDigit) with
    | some parts => .ok parts
    | none => .error .malformedFunction

def demangle (name : String) : Except DemangleError NameParts :=
  match afterMark? typeMark name.toList with
  | some text =>
    match splitScope? text with
    | some (module, symbol) => .ok ⟨.type, String.ofList module, String.ofList symbol⟩
    | none => .error .malformedType
  | none =>
    match afterMark? functionMark name.toList with
    | some text => do
      let (module, rest) ← readSized text
      let (symbol, rest) ← readSized rest
      if rest = [] then
        return ⟨.function, String.ofList module, String.ofList symbol⟩
      else
        throw .malformedFunction
    | none => .error .notMangled

end Name

end Kronk
