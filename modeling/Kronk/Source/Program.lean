import Kronk.Source.StmtReader

/-!
# Reading a whole text

`Program.read` reads the statements of a text one after another without compiling them, up to its
end or to the first failure.
-/

namespace Kronk.Source

/-- The statements read from a text, the signatures found, the trace, and why reading stopped if it
stopped early. -/
structure Program where
  statements : List Stmt
  signatures : Table (List String)
  trace : List String
  failure : Option Failure

namespace Program

def ofReading (reading : Reading) (failure : Option Failure) : Program :=
  ⟨[], reading.signatures, reading.trace, failure⟩

def readFrom (surroundings : Surroundings) : (fuel : Nat) → Reading → Program
  | 0, reading => ofReading reading (some .outOfFuel)
  | fuel + 1, reading =>
    match reading.statement surroundings with
    | .error failure after => ofReading after (some failure)
    | .ok none after => ofReading after none
    | .ok (some stmt) after =>
      let later := readFrom surroundings fuel after
      { later with statements := stmt :: later.statements }

/-- Reads every statement of a text.  Each one takes at least one token. -/
def read (surroundings : Surroundings) (text : String) : Program :=
  let scan := Token.scan text
  match Reading.start surroundings scan surroundings.module.signatures with
  | .error failure after => ofReading after (some failure)
  | .ok _ after => readFrom surroundings (scan.tokens.length + 1) after

end Program

end Kronk.Source
