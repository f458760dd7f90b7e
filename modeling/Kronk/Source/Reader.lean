import Kronk.Failure
import Kronk.Registry
import Kronk.Source.ReadError
import Kronk.Token.Scan

/-!
# Reading tokens

A reader walks over the tokens of one file.  It knows its surroundings (the module being compiled
and the registry), and it carries what it finds on the way: the signatures of the entities it has
read and its trace.  Both survive a failure.
-/

namespace Kronk.Source

structure Surroundings where
  file : String
  module : Module
  registry : Registry

/-- Where a reader stands and what it has found.  `current` is the first token not yet consumed;
`failure` is the broken lexeme after the last token, if the text has one. -/
structure Reading where
  current : Token
  rest : List Token
  failure : Option (ScanError × Nat)
  signatures : Table (List String)
  trace : List String

abbrev Reader := ReaderT Surroundings (EStateM Failure Reading)

inductive Move where
  | to (token : Token) (rest : List Token)
  | exhausted
  | brokenContinuation (token : Token)

/-- Moves to the next token.  A backslash and the new line after it join two lines, and so do all
new lines after them; `skipping` passes over new lines in any case. -/
def nextToken (skipping : Bool) : List Token → Move
  | [] => .exhausted
  | token :: rest =>
    if token.isChar '\\' then
      match rest with
      | [] => .exhausted
      | follower :: later =>
        if follower.lexeme = .newLine then nextToken true later
        else .brokenContinuation follower
    else if skipping && token.lexeme == .newLine then nextToken true rest
    else .to token rest

namespace Reader

def failAt {α : Type} (kind : ReportKind) (line : Nat) (message : String) : Reader α := do
  throw (Failure.atLine kind (← read).file line message)

def current : Reader Token := return (← get).current

def line : Reader Nat := return (← current).line

def fail {α : Type} (error : ReadError) : Reader α := do failAt .parse (← line) error.message

/-- Moves on; at the end of the text the reader stays where it is. -/
def move (skipping : Bool) : Reader Unit := do
  let reading ← get
  match nextToken skipping reading.rest with
  | .to token rest => set { reading with current := token, rest := rest }
  | .exhausted =>
    match reading.failure with
    | some (error, line) => failAt .tokenRead line error.message
    | none => pure ()
  | .brokenContinuation token => failAt .parse token.line ReadError.continuation.message

def next : Reader Unit := move false

def nextSkipLines : Reader Unit := move true

def skipLines : Reader Unit := do
  if (← current).lexeme = .newLine then move true

def atChar (c : Char) : Reader Bool := return (← current).isChar c

def passChar (c : Char) (error : ReadError) : Reader Unit := do
  if ← atChar c then next else fail error

def identifier (error : ReadError) : Reader String := do
  match (← current).lexeme with
  | .identifier name => next; return name
  | _ => fail error

def operator? : Reader (Option Operator) := do
  match (← current).lexeme with
  | .operator spelling => return Operator.ofSpelling? spelling
  | _ => return none

/-- The module that looks names up, with the signatures read so far. -/
def viewpoint : Reader Viewpoint := do
  return ⟨{ (← read).module with signatures := (← get).signatures }, false⟩

/-- Takes the answer of the registry, which can be a failure. -/
def ask {α : Type} (answer : Except Failure α) : Reader α :=
  match answer with
  | .ok value => return value
  | .error failure => throw failure

def signature? (mangled : String) : Reader (Option (List String)) := do
  ask ((← read).registry.signature? (← viewpoint) mangled)

def canonical (mangled : String) : Reader String := do
  ask ((← read).registry.canonical mangled)

/-- Adds a message to the trace once a reader is done, whether it succeeds or not. -/
def traced {α : Type} (message : String) (reader : Reader α) : Reader α :=
  fun surroundings reading =>
  match reader surroundings reading with
  | .ok value after => .ok value { after with trace := after.trace ++ [message] }
  | .error failure after => .error failure { after with trace := after.trace ++ [message] }

def cutOff {α : Type} : Reader α := throw .outOfFuel

end Reader

namespace Reading

def start (surroundings : Surroundings) (scan : Scan) (signatures : Table (List String)) :
    EStateM.Result Failure Reading Unit :=
  Reader.next surroundings ⟨⟨.endOfFile, 1⟩, scan.tokens, scan.failure, signatures, []⟩

end Reading

end Kronk.Source
