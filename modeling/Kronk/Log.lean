import Kronk.Failure

/-!
# The log of a run

Messages and failures are collected until they are flushed.  Traces and dumps are kept only in
debug mode and carry a mark; flushing writes messages, then failures, and empties the log.
-/

namespace Kronk

/-- A message of a run.  A dump has a title and a body, which lists of messages leave out. -/
inductive LogMessage where
  | line (text : String)
  | dump (title body : String)
deriving DecidableEq, Repr

namespace LogMessage

def summary : LogMessage → String
  | line text => text
  | dump title _ => title

def text : LogMessage → String
  | line text => text
  | dump title body => title ++ "\n" ++ body

end LogMessage

/-- What a run has said and what went wrong in it. -/
structure Log where
  debug : Bool := false
  messages : List LogMessage := []
  failures : List Failure := []

namespace Log

def debugMark : String := "[ Debug Info ]: "

def trace (log : Log) (message : String) : Log :=
  if log.debug then { log with messages := log.messages ++ [.line (debugMark ++ message)] }
  else log

def dump (log : Log) (title body : String) : Log :=
  if log.debug then { log with messages := log.messages ++ [.dump (debugMark ++ title) body] }
  else log

def info (log : Log) (message : String) : Log :=
  { log with messages := log.messages ++ [.line message] }

def fail (log : Log) (failure : Failure) : Log :=
  { log with failures := log.failures ++ [failure] }

def hasFailures (log : Log) : Bool := !log.failures.isEmpty

def summaries (log : Log) : List String := log.messages.map LogMessage.summary

def trimNewLines (text : String) : String :=
  String.ofList (text.toList.reverse.dropWhile (· = '\n')).reverse

def flushed (log : Log) : String :=
  String.join (log.messages.map (fun message => message.text ++ "\n")) ++
    String.join (log.failures.map (fun failure => trimNewLines failure.text ++ "\n"))

def flush (log : Log) : Log := { log with messages := [], failures := [] }

end Log

end Kronk
