/-!
# A place in the text of a document

Indentation matters in a document, so a cursor knows its line and its column.  It also knows whether
something other than blanks has been passed in its line.
-/

namespace Kronk.Yaml

def isBlank (c : Char) : Bool := c == ' ' || c == '\t'

def isBreak (c : Char) : Bool :=
  c == '\n' || c == '\r' || c == '\u0085' || c == '\u2028' || c == '\u2029'

def isSpacing (c : Char) : Bool := isBlank c || isBreak c

def startsBlank : List Char → Bool
  | [] => true
  | c :: _ => isSpacing c

/-- How the line end in front of a text is kept in a scalar: as a new line, but the line separator
and the paragraph separator as they are. -/
def breakText : List Char → List Char
  | [] => []
  | c :: _ =>
    if c = '\u2028' ∨ c = '\u2029' then [c]
    else if isBreak c then ['\n']
    else []

/-- What is left of a text, with the number of characters passed, and the line (from one) and the
column (from zero) of its first character.  A cursor is `fresh` if only blanks have been passed
since a line end. -/
structure Cursor where
  rest : List Char
  index : Nat := 0
  line : Nat := 1
  column : Nat := 0
  fresh : Bool := false
deriving Repr

namespace Cursor

def head? (cursor : Cursor) : Option Char := cursor.rest.head?

def advance (cursor : Cursor) (count : Nat) : Cursor where
  rest := cursor.rest.drop count
  index := cursor.index + count
  line := cursor.line
  column := cursor.column + count
  fresh := cursor.fresh && (cursor.rest.take count).all isBlank

def nextLine (cursor : Cursor) : Cursor :=
  match cursor.rest with
  | '\r' :: '\n' :: rest => ⟨rest, cursor.index + 2, cursor.line + 1, 0, true⟩
  | c :: rest =>
    if isBreak c then ⟨rest, cursor.index + 1, cursor.line + 1, 0, true⟩ else cursor
  | [] => cursor

/-- Passes over the characters of the line that satisfy a condition. -/
def passWhile (condition : Char → Bool) (cursor : Cursor) : Cursor :=
  cursor.advance (cursor.rest.takeWhile condition).length

def passLine (cursor : Cursor) : Cursor := cursor.passWhile (fun c => !isBreak c)

def isAt (cursor : Cursor) (c : Char) : Bool := cursor.head? == some c

def atBreak (cursor : Cursor) : Bool := cursor.head?.any isBreak

def atBlank (cursor : Cursor) : Bool := cursor.head?.any isBlank

def atDocumentStart (cursor : Cursor) : Bool :=
  cursor.column == 0 &&
    match cursor.rest with
    | '-' :: '-' :: '-' :: rest => startsBlank rest
    | _ => false

def atDocumentEnd (cursor : Cursor) : Bool :=
  cursor.column == 0 &&
    match cursor.rest with
    | '.' :: '.' :: '.' :: rest => startsBlank rest
    | _ => false

def atMarker (cursor : Cursor) : Bool := cursor.atDocumentStart || cursor.atDocumentEnd

def passSpacing : (fuel : Nat) → Cursor → Cursor
  | 0, cursor => cursor
  | fuel + 1, cursor =>
    if cursor.atBreak then passSpacing fuel cursor.nextLine
    else if cursor.atBlank then passSpacing fuel (cursor.advance 1)
    else cursor

/-- Whether the line end in front of a text is followed by another comment, with nothing but blanks
and empty lines in between. -/
def commentFollows : List Char → Bool
  | [] => false
  | c :: rest =>
    (c == '\n' || c == '\r') &&
      (rest.dropWhile (fun c => isBlank c || c == '\n' || c == '\r')).head? == some '#'

/-- Passes over a comment and the comments that follow it in the next lines, up to a line end. -/
def passComments : (fuel : Nat) → Cursor → Cursor
  | 0, cursor => cursor
  | fuel + 1, cursor =>
    let after := cursor.passLine
    if commentFollows after.rest then passComments fuel (after.passSpacing after.rest.length)
    else after

end Cursor

end Kronk.Yaml
