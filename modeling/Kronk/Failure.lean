import Kronk.Location

/-!
# Failures and their texts

A compilation fails with a report: a kind of problem at a place.  Everything around it (files,
manifests, the command line) fails with a system failure, which may wrap the failure that caused
it.  Each failure has one text.
-/

namespace Kronk

structure Report where
  kind : String
  location : Location
  message : String
deriving DecidableEq, Repr

/-- The text of a report; a report without a place has no place in its text. -/
def Report.text (report : Report) : String :=
  if report.location.isEmpty then report.kind ++ " Error\n" ++ report.message
  else
    report.kind ++ " Error in " ++ report.location.fileName ++ "\n[Line " ++
      toString report.location.line ++ "]: " ++ report.message

inductive ReportKind where
  | tokenRead
  | parse
  | codeGeneration
  | moduleInclude
deriving DecidableEq, Repr

def ReportKind.name : ReportKind → String
  | tokenRead => "Token Read"
  | parse => "Parse"
  | codeGeneration => "Code Generation"
  | moduleInclude => "Module Include"

/-- Why something failed.  A panic ends the program, `endless` is the answer of a loop that never
ends, and `outOfFuel` is the answer of a bounded recursion that was cut off. -/
inductive Failure where
  | report (problem : Report)
  | plain (message : String)
  | system (message : String)
  | wrapped (message : String) (cause : Failure)
  | panic (message : String)
  | endless
  | outOfFuel
deriving Repr

namespace Failure

/-- The text of a failure; a wrapped one shows its cause after its own message. -/
def text : Failure → String
  | report problem => problem.text
  | plain message => message
  | system message => "system error: " ++ message
  | wrapped message cause => "system error: " ++ message ++ ": " ++ cause.text
  | panic message => message
  | endless => "endless loop"
  | outOfFuel => "recursion cut off"

def kind : Failure → String
  | report problem => problem.kind
  | plain _ => "error"
  | system _ | wrapped _ _ => "system"
  | panic _ => "panic"
  | endless | outOfFuel => "error"

/-- Whether a failure ends the program, or keeps it from ending, so that nobody can report it. -/
def isFatal : Failure → Bool
  | panic _ | endless => true
  | _ => false

def atLine (kind : ReportKind) (path : String) (line : Nat) (message : String) : Failure :=
  .report ⟨kind.name, Location.ofLine path line, message⟩

end Failure

end Kronk
