import Kronk.Number.Decimal
import Kronk.Yaml.Cursor

/-!
# Scalars of a document

A plain scalar ends before a colon or a comment that is set off by a blank, and in brackets before a
bracket, a comma or a question mark.  Scalars may go on in later lines: one line end is read as a
space, and more line ends as new lines, one fewer than there are.  Every loop passes at least one
character, so the length of the text bounds it.
-/

namespace Kronk.Yaml

/-! ## Blanks and line ends between words -/

/-- What stands between two words of a scalar: blanks, or a line end with what follows it. -/
structure Gap where
  broken : Bool := false
  blanks : List Char := []
  lineEnd : List Char := []
  further : List Char := []

def Gap.text (gap : Gap) : List Char :=
  if !gap.broken then gap.blanks
  else if gap.lineEnd ≠ ['\n'] then gap.lineEnd ++ gap.further
  else if gap.further = [] then [' ']
  else gap.further

/-- Passes over the gap after a word of a scalar.  After a line end, no tab may stand left of column
`floor`. -/
def passGap (floor : Nat) : (fuel : Nat) → Gap → Cursor → Option (Gap × Cursor)
  | 0, gap, cursor => some (gap, cursor)
  | fuel + 1, gap, cursor =>
    match cursor.rest with
    | [] => some (gap, cursor)
    | c :: _ =>
      if isBlank c then
        if gap.broken then
          if c = '\t' ∧ cursor.column < floor then none
          else passGap floor fuel gap (cursor.advance 1)
        else passGap floor fuel { gap with blanks := gap.blanks ++ [c] } (cursor.advance 1)
      else if isBreak c then
        let lineEnd := breakText cursor.rest
        let wider : Gap :=
          if gap.broken then { gap with further := gap.further ++ lineEnd }
          else { broken := true, lineEnd := lineEnd }
        passGap floor fuel wider cursor.nextLine
      else some (gap, cursor)

/-! ## Plain scalars -/

def isBracket (c : Char) : Bool :=
  c == ',' || c == '?' || c == '[' || c == ']' || c == '\x7b' || c == '\x7d'

def plainWord (inBrackets : Bool) : List Char → List Char
  | [] => []
  | c :: rest =>
    if isSpacing c ∨ (c = ':' ∧ startsBlank rest) ∨ (inBrackets ∧ isBracket c) then []
    else c :: plainWord inBrackets rest

/-- A plain scalar: its text, the line it ends at, whether a line end was passed after it, and the
cursor behind it. -/
structure PlainScalar where
  text : List Char := []
  last : Nat
  broken : Bool := false
  cursor : Cursor

/-- Reads the words of a plain scalar, after a gap.  In a block, later lines start at column `floor`
at least. -/
def plainWords (inBrackets : Bool) (floor : Nat) :
    (fuel : Nat) → Gap → PlainScalar → Option PlainScalar
  | 0, _, scalar => some scalar
  | fuel + 1, gap, scalar =>
    let cursor := scalar.cursor
    if cursor.atMarker || cursor.isAt '#' then some { scalar with broken := gap.broken }
    else
      let word := plainWord inBrackets cursor.rest
      let after := cursor.advance word.length
      let (gap, scalar) : Gap × PlainScalar :=
        if word = [] then (gap, scalar)
        else ({}, ⟨scalar.text ++ gap.text ++ word, cursor.line, false, after⟩)
      if after.atBlank || after.atBreak then do
        let (gap, next) ← passGap floor (after.rest.length + 1) gap after
        let scalar := { scalar with broken := gap.broken, cursor := next }
        if !inBrackets && next.column < floor then return scalar
        plainWords inBrackets floor fuel gap scalar
      else some { scalar with broken := gap.broken }

def plainScalar (inBrackets : Bool) (floor : Nat) (cursor : Cursor) : Option PlainScalar :=
  plainWords inBrackets floor (cursor.rest.length + 1) {} { last := cursor.line, cursor := cursor }

/-! ## Scalars in quotes -/

/-- The character that a letter stands for after a backslash. -/
def escaped? : Char → Option Char
  | '0' => some '\x00'
  | 'a' => some '\x07'
  | 'b' => some '\x08'
  | 't' => some '\t'
  | '\t' => some '\t'
  | 'n' => some '\n'
  | 'v' => some '\x0b'
  | 'f' => some '\x0c'
  | 'r' => some '\r'
  | 'e' => some '\x1b'
  | ' ' => some ' '
  | '"' => some '"'
  | '\'' => some '\''
  | '/' => some '/'
  | '\\' => some '\\'
  | 'N' => some '\u0085'
  | '_' => some '\u00a0'
  | 'L' => some '\u2028'
  | 'P' => some '\u2029'
  | _ => none

/-- The number of hexadecimal digits that a letter announces after a backslash. -/
def escapeWidth? : Char → Option Nat
  | 'x' => some 2
  | 'u' => some 4
  | 'U' => some 8
  | _ => none

def hexValue? (c : Char) : Option Nat :=
  if Decimal.isDigit c then some (c.toNat - '0'.toNat)
  else if 'a' ≤ c ∧ c ≤ 'f' then some (c.toNat - 'a'.toNat + 10)
  else if 'A' ≤ c ∧ c ≤ 'F' then some (c.toNat - 'A'.toNat + 10)
  else none

/-- The number that exactly `width` hexadecimal digits in front of a text stand for. -/
def hexNumber? (width : Nat) (text : List Char) : Option Nat :=
  let digits := text.take width
  if digits.length < width then none
  else digits.foldlM (fun total c => (hexValue? c).map (16 * total + ·)) 0

/-- The character of an escape after its backslash, with the number of characters it takes. -/
def escapeChar? : List Char → Option (Char × Nat)
  | [] => none
  | letter :: rest =>
    match escapeWidth? letter with
    | some width => do
      let code ← hexNumber? width rest
      if (0xd800 ≤ code ∧ code ≤ 0xdfff) ∨ 0x10ffff < code then none
      else some (Char.ofNat code, width + 1)
    | none => (escaped? letter).map (·, 1)

inductive Quotes where
  | single
  | double
deriving DecidableEq, Repr

def Quotes.char : Quotes → Char
  | single => '\''
  | double => '"'

/-- A word of a scalar in quotes: its text, whether it ends with an escaped line end, and the cursor
behind it. -/
structure QuotedWord where
  text : List Char
  broken : Bool := false
  cursor : Cursor

/-- Reads a word of a scalar in quotes, up to a blank, a line end or the closing quote. -/
def quotedWord (quotes : Quotes) : (fuel : Nat) → Cursor → Option QuotedWord
  | 0, cursor => some ⟨[], false, cursor⟩
  | fuel + 1, cursor =>
    let andThen (c : Char) (after : Cursor) : Option QuotedWord := do
      let word ← quotedWord quotes fuel after
      return { word with text := c :: word.text }
    match quotes, cursor.rest with
    | _, [] => some ⟨[], false, cursor⟩
    | .single, '\'' :: '\'' :: _ => andThen '\'' (cursor.advance 2)
    | .double, '\\' :: rest =>
      if rest.head?.any isBreak then some ⟨[], true, (cursor.advance 1).nextLine⟩
      else do
        let (c, count) ← escapeChar? rest
        andThen c (cursor.advance (count + 1))
    | _, c :: _ =>
      if isSpacing c ∨ c = quotes.char then some ⟨[], false, cursor⟩
      else andThen c (cursor.advance 1)

def quotedWords (quotes : Quotes) :
    (fuel : Nat) → (text : List Char) → Cursor → Option (List Char × Cursor)
  | 0, _, _ => none
  | fuel + 1, text, cursor => do
    if cursor.atMarker ∨ cursor.rest = [] then failure
    let word ← quotedWord quotes (cursor.rest.length + 1) cursor
    let after := word.cursor
    if after.isAt quotes.char then return (text ++ word.text, after.advance 1)
    let (gap, next) ← passGap 0 (after.rest.length + 1) { broken := word.broken } after
    quotedWords quotes fuel (text ++ word.text ++ gap.text) next

def quotedScalar (quotes : Quotes) (cursor : Cursor) : Option (List Char × Cursor) :=
  quotedWords quotes (cursor.rest.length + 1) [] (cursor.advance 1)

end Kronk.Yaml
