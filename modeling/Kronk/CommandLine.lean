import Kronk.Build

/-!
# The command line

Flags come first and start with one or two dashes; the first other argument, or a double dash, ends
them.  The command takes one input and prints the log of its build.
-/

namespace Kronk

def version : String := "1.0"

namespace CommandLine

structure Options where
  debug : Bool := false
  out : String := ""
  cache : String := ""
  upgrade : Bool := false
  version : Bool := false

/-- Why the flags are refused; `help` asks for the usage. -/
inductive FlagError where
  | malformed (argument : String)
  | undefined (name : String)
  | noValue (name : String)
  | notBoolean (name value : String)
  | help
deriving DecidableEq, Repr

def FlagError.message : FlagError → String
  | malformed argument => "bad flag syntax: " ++ argument
  | undefined name => "flag provided but not defined: -" ++ name
  | noValue name => "flag needs an argument: -" ++ name
  | notBoolean name value => "invalid boolean value \"" ++ value ++ "\" for -" ++ name
  | help => "usage: kronkc [-d] [-out dir] [-cache dir] [-upgrade] [-version] input"

def FlagError.status : FlagError → Nat
  | help => 0
  | _ => 2

/-- What a flag does: switch something, or set a directory. -/
inductive Flag where
  | switch (set : Bool → Options → Options)
  | directory (set : String → Options → Options)

def flag? : String → Option Flag
  | "d" => some (.switch fun value options => { options with debug := value })
  | "upgrade" => some (.switch fun value options => { options with upgrade := value })
  | "version" => some (.switch fun value options => { options with version := value })
  | "out" => some (.directory fun value options => { options with out := value })
  | "cache" => some (.directory fun value options => { options with cache := value })
  | _ => none

def boolean? (text : String) : Option Bool :=
  if ["1", "t", "T", "TRUE", "true", "True"].contains text then some true
  else if ["0", "f", "F", "FALSE", "false", "False"].contains text then some false
  else none

inductive Argument where
  | input
  | endOfFlags
  | malformed
  | flag (name : String) (value : Option String)

def splitValue (text : List Char) : Argument :=
  let name := String.ofList (text.takeWhile (· ≠ '='))
  match text.dropWhile (· ≠ '=') with
  | [] => .flag name none
  | _ :: value => .flag name (some (String.ofList value))

def namedFlag : List Char → Argument
  | [] => .malformed
  | c :: rest => if c = '-' ∨ c = '=' then .malformed else splitValue (c :: rest)

/-- What an argument is.  A single dash is an input. -/
def Argument.ofText (text : String) : Argument :=
  match text.toList with
  | ['-'] => .input
  | ['-', '-'] => .endOfFlags
  | '-' :: '-' :: rest => namedFlag rest
  | '-' :: rest => namedFlag rest
  | _ => .input

/-- Reads the flags; gives the options and the arguments after the flags. -/
def parse (options : Options) : List String → Except FlagError (Options × List String)
  | [] => .ok (options, [])
  | argument :: rest =>
    match Argument.ofText argument with
    | .input => .ok (options, argument :: rest)
    | .endOfFlags => .ok (options, rest)
    | .malformed => .error (.malformed argument)
    | .flag name value =>
      match flag? name, value with
      | none, _ => .error (if name = "h" ∨ name = "help" then .help else .undefined name)
      | some (.switch set), none => parse (set true options) rest
      | some (.switch set), some text =>
        match boolean? text with
        | some on => parse (set on options) rest
        | none => .error (.notBoolean name text)
      | some (.directory set), some text => parse (set text options) rest
      | some (.directory set), none =>
        match rest with
        | [] => .error (.noValue name)
        | text :: later => parse (set text options) later

structure Outcome where
  output : String
  complaint : String := ""
  status : Nat
  files : FileTree

def inputFailure : Failure :=
  .system "expected one input, run compiler as `kronkc <file.krk | project dir>`"

def build (tools : Toolbox) (files : FileTree) (options : Options) (inputs : List String) :
    Except Failure Build :=
  let log : Log := { debug := options.debug }
  match inputs with
  | [target] =>
    Build.run tools files log target
      { outDirectory := options.out, cacheDirectory := options.cache, upgrade := options.upgrade }
  | _ => .ok { files := files, log := log.fail inputFailure }

def defaults (home : String) : Options := { cache := Path.join [home, ".kronk"] }

/-- Runs the command; nothing comes of a run that never ends.  The log is flushed, which empties it,
before the status is taken from it, so that a failed build ends with status zero as well. -/
def run (tools : Toolbox) (files : FileTree) (home : String) (arguments : List String) :
    Option Outcome :=
  match parse (defaults home) arguments with
  | .error error => some {
      output := "", complaint := error.message ++ "\n", status := error.status, files := files }
  | .ok (options, inputs) =>
    if options.version then some {
      output := "kronk compiler version: " ++ version ++ "\n", status := 0, files := files }
    else
      match build tools files options inputs with
      | .ok built =>
        let status := if built.log.flush.hasFailures then 1 else 0
        some { output := built.log.flushed, status := status, files := built.files }
      | .error (.panic message) => some {
          output := "", complaint := "panic: " ++ message ++ "\n", status := 2, files := files }
      | .error _ => none

end CommandLine

end Kronk
