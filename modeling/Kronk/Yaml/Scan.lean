import Kronk.Yaml.Scalar
import Kronk.Yaml.Token

/-!
# From text to tokens

A block starts where a text is indented further than the block around it, and ends where a text is
indented less.  Whether a scalar is a key is known only at the colon after it, so the place in front
of a possible key is kept, and the tokens that announce the key are put in there later.  A key ends
in the line it starts in, and its colon comes within 1024 characters.  Manifests use no directives,
anchors, tags or blocks of lines, so a text with one of them is malformed.
-/

namespace Kronk.Yaml

/-- A token that may turn out to be a key: its position among the tokens and its place in the text.
In a block, a text in the column of the block has to be a key. -/
structure PossibleKey where
  required : Bool
  position : Nat
  index : Nat
  line : Nat
  column : Nat

def PossibleKey.isNear (key : PossibleKey) (cursor : Cursor) : Bool :=
  cursor.line ≤ key.line && cursor.index ≤ key.index + 1024

/-- What is known while a text is scanned: the tokens found, latest first, the columns of the blocks
around, innermost first, whether a key may start here, and the possible key of every bracket around
and of the blocks outside of them, innermost first. -/
structure Scanner where
  cursor : Cursor
  tokens : List Token := []
  count : Nat := 0
  blocks : List Nat := []
  keyAllowed : Bool := true
  keys : List (Option PossibleKey) := [none]

abbrev Scan := StateT Scanner Option

/-- The deepest nesting of blocks and of brackets. -/
def depthBound : Nat := 10000

namespace Scanner

def inBrackets (scanner : Scanner) : Bool := 1 < scanner.keys.length

def key? (scanner : Scanner) : Option PossibleKey := scanner.keys.head?.join

/-- The column right of the innermost block. -/
def floor (scanner : Scanner) : Nat :=
  match scanner.blocks with
  | [] => 0
  | column :: _ => column + 1

def insert (scanner : Scanner) (position : Nat) (token : Token) : Scanner :=
  let later := scanner.count - position
  { scanner with
    tokens := scanner.tokens.take later ++ token :: scanner.tokens.drop later
    count := scanner.count + 1 }

def push (scanner : Scanner) (token : Token) : Scanner :=
  { scanner with tokens := token :: scanner.tokens, count := scanner.count + 1 }

end Scanner

namespace Scan

def moveTo (cursor : Cursor) : Scan Unit := modify ({ · with cursor := cursor })

def allowKey (allowed : Bool) : Scan Unit := modify ({ · with keyAllowed := allowed })

def push (kind : TokenKind) (first last : Nat) : Scan Unit := modify (·.push ⟨kind, first, last⟩)

def take (kind : TokenKind) (count : Nat) : Scan Unit := do
  let cursor := (← get).cursor
  moveTo (cursor.advance count)
  push kind cursor.line cursor.line

/-! ## Blocks -/

/-- The blocks that are left at a column, with the number of those that end. -/
def endedBlocks (column : Int) : List Nat → List Nat × Nat
  | [] => ([], 0)
  | block :: outer =>
    if column < block then
      let (left, ended) := endedBlocks column outer
      (left, ended + 1)
    else (block :: outer, 0)

def endBlocks (column : Int) (line : Nat) : Scan Unit := do
  let scanner ← get
  if !scanner.inBrackets then
    let (left, ended) := endedBlocks column scanner.blocks
    let ends := List.replicate ended (Token.mk .blockEnd line line)
    set { scanner with
      blocks := left, tokens := ends ++ scanner.tokens, count := scanner.count + ended }

/-- Starts a block at a column if it is indented further than the block around it.  The token that
announces it stands at a position. -/
def startBlock (kind : TokenKind) (column line position : Nat) : Scan Unit := do
  let scanner ← get
  if !scanner.inBrackets && scanner.floor ≤ column then
    if depthBound ≤ scanner.blocks.length then failure
    set { scanner.insert position ⟨kind, line, line⟩ with blocks := column :: scanner.blocks }

/-! ## Keys -/

def setKey (key : Option PossibleKey) : Scan Unit :=
  modify fun scanner => { scanner with keys := key :: scanner.keys.tail }

def dropKey : Scan Unit := do
  match (← get).key? with
  | none => return
  | some key =>
    if key.required then failure
    setKey none

def noteKey : Scan Unit := do
  let scanner ← get
  let cursor := scanner.cursor
  if scanner.keyAllowed then
    dropKey
    setKey (some {
      required := !scanner.inBrackets && scanner.blocks.head? == some cursor.column
      position := scanner.count
      index := cursor.index
      line := cursor.line
      column := cursor.column })

/-- The possible key at hand, if the cursor is still near enough to it. -/
def validKey? : Scan (Option PossibleKey) := do
  let scanner ← get
  match scanner.key? with
  | none => return none
  | some key =>
    if !key.isNear scanner.cursor then
      if key.required then failure
      setKey none
      return none
    return some key

/-! ## Between tokens -/

/-- Passes over blanks, line ends and comments.  Where a key may start, a tab is no blank. -/
def toNextToken : (fuel : Nat) → Scan Unit
  | 0 => return
  | fuel + 1 => do
    let scanner ← get
    let start := scanner.cursor
    let unmarked := if start.index = 0 ∧ start.isAt '\ufeff' then start.advance 1 else start
    let tabs := scanner.inBrackets || !scanner.keyAllowed
    let blanks := unmarked.passWhile (fun c => c == ' ' || (tabs && c == '\t'))
    let after :=
      if blanks.isAt '#' then blanks.passComments (blanks.rest.length + 1) else blanks
    moveTo after
    if after.atBreak then
      moveTo after.nextLine
      if !scanner.inBrackets then allowKey true
      toNextToken fuel

/-- Passes over a comment in the line of the token just found.  After the dash of a sequence it
belongs to what follows. -/
def lineComment : Scan Unit := do
  let scanner ← get
  let blanks := scanner.cursor.passWhile isBlank
  let afterDash := scanner.tokens.head?.any (·.kind == .item)
  if !afterDash && !scanner.cursor.fresh && blanks.isAt '#' then moveTo blanks.passLine

/-! ## Indicators -/

def streamEnd : Scan Unit := do
  let cursor := (← get).cursor
  let line := if cursor.column = 0 then cursor.line else cursor.line + 1
  moveTo { cursor with line := line, column := 0 }
  endBlocks (-1) line
  dropKey
  allowKey false
  push .streamEnd line line

def marker (kind : TokenKind) : Scan Unit := do
  endBlocks (-1) (← get).cursor.line
  dropKey
  allowKey false
  take kind 3

def openBracket (kind : TokenKind) : Scan Unit := do
  noteKey
  modify fun scanner => { scanner with keys := none :: scanner.keys }
  if depthBound + 1 < (← get).keys.length then failure
  allowKey true
  take kind 1

def closeBracket (kind : TokenKind) : Scan Unit := do
  dropKey
  modify fun scanner =>
    if scanner.inBrackets then { scanner with keys := scanner.keys.tail } else scanner
  allowKey false
  take kind 1

def comma : Scan Unit := do
  dropKey
  allowKey true
  take .comma 1

def item : Scan Unit := do
  let scanner ← get
  if !scanner.inBrackets then
    if !scanner.keyAllowed then failure
    startBlock .sequenceStart scanner.cursor.column scanner.cursor.line scanner.count
  dropKey
  allowKey true
  take .item 1

def key : Scan Unit := do
  let scanner ← get
  if !scanner.inBrackets then
    if !scanner.keyAllowed then failure
    startBlock .mappingStart scanner.cursor.column scanner.cursor.line scanner.count
  dropKey
  allowKey (!scanner.inBrackets)
  take .key 1

/-- The colon in front of a value.  It makes a key of the possible key at hand. -/
def value : Scan Unit := do
  match ← validKey? with
  | some key =>
    modify (·.insert key.position ⟨.key, key.line, key.line⟩)
    startBlock .mappingStart key.column key.line key.position
    setKey none
    allowKey false
  | none =>
    let scanner ← get
    if !scanner.inBrackets then
      if !scanner.keyAllowed then failure
      startBlock .mappingStart scanner.cursor.column scanner.cursor.line scanner.count
    allowKey (!scanner.inBrackets)
  take .value 1

/-! ## Scalars -/

def quoted (quotes : Quotes) : Scan Unit := do
  noteKey
  allowKey false
  let start := (← get).cursor
  let (text, after) ← quotedScalar quotes start
  moveTo after
  push (.scalar (String.ofList text) false) start.line after.line

def plain : Scan Unit := do
  noteKey
  allowKey false
  let scanner ← get
  let scalar ← plainScalar scanner.inBrackets scanner.floor scanner.cursor
  moveTo scalar.cursor
  push (.scalar (String.ofList scalar.text) true) scanner.cursor.line scalar.last
  if scalar.broken then allowKey true

/-! ## All tokens -/

def isIndicator (c : Char) : Bool :=
  ['-', '?', ':', ',', '[', ']', '\x7b', '\x7d', '#', '&', '*', '!', '|', '>', '\'', '"', '%', '@',
    '\x60'].contains c

/-- Whether a plain scalar starts with a character.  A dash, and outside of brackets a question mark
or a colon too, may start one if no blank follows. -/
def startsPlain (inBrackets : Bool) (c : Char) (rest : List Char) : Bool :=
  (!isSpacing c && !isIndicator c) || (c == '-' && !startsBlank rest) ||
    (!inBrackets && (c == '?' || c == ':') && !startsBlank rest)

def token (c : Char) (rest : List Char) : Scan Unit := do
  let inBrackets := (← get).inBrackets
  match c with
  | '[' => openBracket .listStart
  | '\x7b' => openBracket .tableStart
  | ']' => closeBracket .listEnd
  | '\x7d' => closeBracket .tableEnd
  | ',' => comma
  | '\'' => quoted .single
  | '"' => quoted .double
  | _ =>
    if c == '-' && startsBlank rest then item
    else if c == '?' && (inBrackets || startsBlank rest) then key
    else if c == ':' && (inBrackets || startsBlank rest) then value
    else if startsPlain inBrackets c rest then plain
    else failure

/-- Finds the next token; says whether it is the end of the text. -/
def next : Scan Bool := do
  let line := (← get).cursor.line
  toNextToken ((← get).cursor.rest.length + 1)
  let cursor := (← get).cursor
  endBlocks cursor.column line
  match cursor.rest with
  | [] =>
    streamEnd
    return true
  | c :: rest =>
    if cursor.atDocumentStart then marker .documentStart
    else if cursor.atDocumentEnd then marker .documentEnd
    else
      token c rest
      lineComment
    return false

/-- Finds all tokens.  Every token but the last takes at least one character. -/
def all : (fuel : Nat) → Scan Unit
  | 0 => return
  | fuel + 1 => do
    if !(← next) then all fuel

end Scan

def scan (text : List Char) : Option (List Token) := do
  let (_, scanner) ← Scan.all (text.length + 1) { cursor := { rest := text } }
  return scanner.tokens.reverse

end Kronk.Yaml
