import Kronk.Operator
import Kronk.Token.Basic

/-!
# Scanning text into tokens

`scanStep` takes the next token off a text, and `scan` repeats it until the text ends or a lexeme
is broken.  Blanks are skipped, a comment ends with its line, and the blank lines after a comment
belong to the new line that ends it.
-/

namespace Kronk

inductive ScanError where
  | openString
  | badNumber (spelling : String)
deriving DecidableEq, Repr

def ScanError.message : ScanError → String
  | .openString => "Incomplete string !!"
  | .badNumber spelling => "Error reading Number " ++ spelling

namespace Token

def isWordStart (c : Char) : Bool :=
  ('a' ≤ c && c ≤ 'z') || ('A' ≤ c && c ≤ 'Z') || c == '_'

def isWordChar (c : Char) : Bool := isWordStart c || Decimal.isDigit c

/-- The characters that separate tokens and mean nothing else. -/
def isBlank (c : Char) : Bool := c == ' ' || c == '\t' || c == '\r'

/-- The characters an operator may start with: every operator of one character, and `!`. -/
def startsOperator (c : Char) : Bool :=
  c ∈ ['~', '*', '/', '+', '-', '<', '>', '&', '^', '|', '=', '!']

def isOperatorSuffix (c : Char) : Bool := c ∈ ['*', '=', '<', '>']

/-- The lexeme of a word: a reserved word, a boolean, an operator or a name. -/
def ofWord (word : String) : Lexeme :=
  match Keyword.ofSpelling? word with
  | some keyword => .keyword keyword
  | none =>
    if word = booleanSpelling true then .boolean true
    else if word = booleanSpelling false then .boolean false
    else if (Operator.ofSpelling? word).isSome then .operator word
    else .identifier word

/-- Takes the characters of a number after `previous`: digits, points, exponent marks, and a
hyphen directly after an exponent mark. -/
def numberRun (previous : Char) : List Char → List Char × List Char
  | [] => ([], [])
  | c :: rest =>
    if Decimal.isDigit c || c == '.' || c == 'e' || (c == '-' && previous == 'e') then
      let (run, after) := numberRun c rest
      (c :: run, after)
    else
      ([], c :: rest)

structure NumberMarks where
  point : Bool := false
  exponent : Bool := false
  hyphen : Bool := false

/-- Checks the marks of a number: one point and that before the exponent, one exponent mark
between a digit and a digit or hyphen, one hyphen and that right after the exponent mark. -/
def marksFit (marks : NumberMarks) (previous : Option Char) : List Char → Bool
  | [] => true
  | c :: rest =>
    if c == '.' then
      !marks.point && !marks.exponent && marksFit { marks with point := true } (some c) rest
    else if c == '-' then
      !marks.hyphen && previous == some 'e' &&
        marksFit { marks with hyphen := true } (some c) rest
    else if c == 'e' then
      !marks.exponent && previous.any Decimal.isDigit &&
        rest.head?.any (fun next => Decimal.isDigit next || next == '-') &&
        marksFit { marks with exponent := true } (some c) rest
    else
      marksFit marks (some c) rest

/-- The value of a number, if its marks fit and it is not too large. -/
def numberValue? (run : List Char) : Option Binary64 :=
  if marksFit {} none run then Decimal.read? run >>= Binary64.ofDecimal? else none

def lineCount (text : List Char) : Nat := text.count '\n'

/-- What taking one token off a text gives: a token with the line and the text after it, the end,
or a broken lexeme with the line it was noticed on. -/
inductive Step where
  | token (token : Token) (line : Nat) (rest : List Char)
  | finish (token : Token)
  | failure (error : ScanError) (line : Nat)

/-- Takes the token that starts with `c`, which is no blank, off the text `c :: tail`. -/
def scanFrom (line : Nat) (c : Char) (tail : List Char) : Step :=
  if isWordStart c then
    .token ⟨ofWord (String.ofList (c :: tail.takeWhile isWordChar)), line⟩ line
      (tail.dropWhile isWordChar)
  else if c == '"' then
    let content := tail.takeWhile (· != '"')
    match tail.dropWhile (· != '"') with
    | [] => .failure .openString (line + lineCount content)
    | _ :: after => .token ⟨.string (String.ofList content), line⟩ (line + lineCount content) after
  else if Decimal.isDigit c then
    let run := c :: (numberRun c tail).1
    match numberValue? run with
    | some value => .token ⟨.number (String.ofList run) value, line⟩ line (numberRun c tail).2
    | none => .failure (.badNumber (String.ofList run)) line
  else if c == '#' then
    match tail.dropWhile (· != '\n') with
    | [] => .finish ⟨.endOfFile, line⟩
    | after =>
      let folded := after.takeWhile (fun d => d == '\n' || isBlank d)
      .token ⟨.newLine, line⟩ (line + lineCount folded)
        (after.dropWhile (fun d => d == '\n' || isBlank d))
  else if c == '\n' then
    .token ⟨.newLine, line⟩ (line + 1) tail
  else if c == ':' && tail.head? == some ':' then
    .token ⟨.scope, line⟩ line tail.tail
  else if startsOperator c then
    match tail with
    | d :: after =>
      if isOperatorSuffix d then .token ⟨.operator (String.ofList [c, d]), line⟩ line after
      else .token ⟨.operator (String.ofList [c]), line⟩ line tail
    | [] => .token ⟨.operator (String.ofList [c]), line⟩ line []
  else
    .token ⟨.char c, line⟩ line tail

/-- Takes the next token off a text whose first character stands on `line`. -/
def scanStep (line : Nat) (text : List Char) : Step :=
  match text.dropWhile isBlank with
  | [] => .finish ⟨.endOfFile, line⟩
  | c :: tail => scanFrom line c tail

theorem length_dropWhile_le {α : Type} (p : α → Bool) (text : List α) :
    (text.dropWhile p).length ≤ text.length :=
  (List.dropWhile_suffix p).length_le

theorem length_numberRun_le (previous : Char) (text : List Char) :
    (numberRun previous text).2.length ≤ text.length := by
  fun_induction numberRun previous text with
  | case1 => simp
  | case2 _ c rest _ run after eq ih =>
    rw [eq] at ih
    simp only [List.length_cons]
    simp only at ih
    omega
  | case3 => simp

/-- The text after a token is shorter than the text it was taken off. -/
theorem length_scanFrom_le {line c tail token next rest}
    (taken : scanFrom line c tail = .token token next rest) : rest.length ≤ tail.length := by
  unfold scanFrom at taken
  split at taken
  · cases taken; exact length_dropWhile_le _ _
  split at taken
  · have shorter := length_dropWhile_le (· != '"') tail
    split at taken
    · cases taken
    · rename_i after eq
      cases taken
      rw [eq, List.length_cons] at shorter
      omega
  split at taken
  · dsimp only at taken
    split at taken
    · cases taken; exact length_numberRun_le _ _
    · cases taken
  split at taken
  · have shorter := length_dropWhile_le (· != '\n') tail
    split at taken
    · cases taken
    · cases taken
      exact Nat.le_trans (length_dropWhile_le _ _) shorter
  split at taken
  · cases taken; exact Nat.le_refl _
  split at taken
  · cases taken; simp
  split at taken
  · split at taken
    · split at taken
      · cases taken; simp
      · cases taken; exact Nat.le_refl _
    · cases taken; simp
  · cases taken; exact Nat.le_refl _

theorem length_scanStep_lt {line text token next rest}
    (taken : scanStep line text = .token token next rest) : rest.length < text.length := by
  unfold scanStep at taken
  have shorter := length_dropWhile_le isBlank text
  split at taken
  · cases taken
  · rename_i c tail eq
    rw [eq, List.length_cons] at shorter
    have := length_scanFrom_le taken
    omega

end Token

/-- The tokens of a text, up to its end or to the first broken lexeme.  A text without a broken
lexeme ends with the token of its end. -/
structure Scan where
  tokens : List Token
  failure : Option (ScanError × Nat)
deriving DecidableEq, Repr

namespace Token

def scanLines (line : Nat) (text : List Char) : Scan :=
  match _taken : scanStep line text with
  | .token token next rest =>
    let later := scanLines next rest
    { later with tokens := token :: later.tokens }
  | .finish token => ⟨[token], none⟩
  | .failure error reached => ⟨[], some (error, reached)⟩
termination_by text.length
decreasing_by exact length_scanStep_lt _taken

/-- Scans a whole text; its first line is line 1. -/
def scan (text : String) : Scan := scanLines 1 text.toList

end Token

end Kronk
