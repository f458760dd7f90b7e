import Kronk.Lowering.Stmt
import Kronk.Source.StmtReader
import Kronk.Text.Utf8

/-!
# Compilation

A file is compiled statement by statement: each one is read, recorded and lowered before the next
one is read, because what it defines can be used right after it.  An include compiles the included
file first and then goes on.  A file is compiled once in a session; including it again makes the new
id a duplicate of the first one.
-/

namespace Kronk

open Lowering Source

namespace Lowering.Frame

/-- The frame in which a file is compiled: the code starts with the name of the file and an empty
program. -/
def initial (id path : String) : Frame :=
  let program : IR.Function :=
    { name := "main", result := .i32, parameters := [], blocks := [{ label := "ProgramEntry" }] }
  let (fileName, draft) := Emit.constantText (Path.base path) { functions := [program] }
  { module := { id := id, file := path }, draft := draft, scopes := [{}], fileName := fileName }

/-- The finished module.  An included module has no program of its own. -/
def finish (frame : Frame) (included : Bool) : Module :=
  let closing : Emit Unit := do
    let exitBlock ← Emit.newBlock "ProgramExit"
    Emit.jumpUnlessTerminated "ProgramExit"
    Emit.enterBlock exitBlock
    Emit.terminate (.ret (some (.integer .i32 0)))
  let (_, draft) := closing frame.draft
  let kept := if included then draft.functions.drop 1 else draft.functions
  { frame.module with code := { draft with functions := kept }.finish frame.module.file }

end Lowering.Frame

/-- Compilation in a session.  The session survives a failure. -/
abbrev Compile := EStateM Failure Session

def Session.traceAll (session : Session) (messages : List String) : Session :=
  messages.foldl Session.trace session

namespace Compile

/-- What a lowering comes to once its code is looked through.  Code that is refused ends the
program, whatever else went wrong after it. -/
def examined : EStateM.Result Failure Workbench Unit → EStateM.Result Failure Workbench Unit
  | .ok _ after =>
    match after.frame.draft.refusal? with
    | none => .ok () after
    | some message => .error (.panic message) after
  | .error failure after =>
    .error ((after.frame.draft.refusal?.map Failure.panic).getD failure) after

def checked (lowering : Lower Unit) : Lower Unit := fun bench => examined (lowering bench)

/-- Compiles one statement after another.  Each takes at least one token, so `fuel` is the number
of tokens. -/
def statements (compileIncluded : String → String → Nat → Lower Unit) :
    (fuel : Nat) → Reading → Lower Unit
  | 0, _ => throw .outOfFuel
  | fuel + 1, reading => do
    let bench ← get
    let module := bench.frame.module
    let before := { reading with signatures := module.signatures, trace := [] }
    let outcome := before.statement ⟨module.file, module, bench.session.registry⟩
    let finished (after : Reading) : Lower Unit := do
      Lower.modifyModule fun module => { module with signatures := after.signatures }
      modify fun bench => { bench with session := bench.session.traceAll after.trace }
    match outcome with
    | .error failure after =>
      finished after
      throw failure
    | .ok none after => finished after
    | .ok (some written) after =>
      finished after
      modify fun bench =>
        let log := bench.session.log.dump "statement" (bench.session.showStatement written)
        { bench with session := { bench.session with log := log } }
      checked (Lowering.statement compileIncluded written)
      statements compileIncluded fuel after

def body (compileIncluded : String → String → Nat → Lower Unit) (text : String) : Lower Unit := do
  let bench ← get
  let module := bench.frame.module
  let scan := Token.scan text
  match Reading.start ⟨module.file, module, bench.session.registry⟩ scan {} with
  | .error failure _ => throw failure
  | .ok _ reading => statements compileIncluded (scan.tokens.length + 1) reading

def inFrame (frame : Frame) (lowering : Lower Unit) : Compile Frame :=
  fun session =>
    match lowering ⟨session, frame⟩ with
    | .ok _ bench => .ok bench.frame bench.session
    | .error failure bench => .error failure bench.session

def whileWaiting {α : Type} (compilation : Compile α) : Lower α := fun bench =>
  match compilation bench.session with
  | .ok value session => .ok value { bench with session := session }
  | .error failure session => .error failure { bench with session := session }

def includeFailure (location : Location) (message : String) : Failure :=
  .report ⟨ReportKind.moduleInclude.name, location, message⟩

/-- Compiles a file under an id, or under its stem if the id is empty.  `waiting` are the ids of the
modules that wait for this file, and `includedAt` is where it is included.  Every file on the way is
bound to an id, so `fuel` is the number of files. -/
def file (waiting : List String) (includedAt : Location) :
    (fuel : Nat) → (path id : String) → Compile String
  | 0, _, _ => throw .outOfFuel
  | fuel + 1, path, id => do
    let session ← get
    let source := session.files.absolute path
    match session.files.stat source with
    | .ok (.file _) => pure ()
    | _ => throw (includeFailure includedAt ("The file '" ++ path ++ "' doesn't exist !! "))
    let id := if id = "" then Path.stem source else id
    let ((first, isNew), registry) := session.registry.bindFile source id
    if !isNew then
      if Registry.isCircular waiting first then
        throw (includeFailure includedAt "Circular dependency detected!! Aborting..")
      match session.registry.addDuplicate? id first with
      | none => throw .endless
      | some registry => set { session with registry := registry }
      modify fun session => session.trace (id ++ " is already compiled as " ++ first)
      return id
    set { session with registry := registry }
    match session.files.read source with
    | .error failure =>
      throw (.wrapped ("failed to read module `" ++ path ++ "`") (.plain failure.message))
    | .ok content =>
      let compileIncluded (included includedId : String) (line : Nat) : Lower Unit := do
        let place := Location.ofLine source line
        let _ ← whileWaiting (file (id :: waiting) place fuel included includedId)
      let frame ← inFrame (Frame.initial id source) (body compileIncluded (Text.decode content))
      let module := frame.finish (!waiting.isEmpty)
      modify fun session => { session with registry := session.registry.register module }
      modify fun session => session.trace ("Compile Sucess!! (" ++ id ++ ")")
      return id

end Compile

namespace Session

/-- Compiles an entry file and everything it includes; an empty id stands for the stem. -/
def compileEntry (path id : String) : Compile String := do
  Compile.file [] {} ((← get).files.files.length + 1) path id

def sourceModules (session : Session) : List Module := session.registry.sourceModules

def writeModules (directory : String) : List Module → Compile (List String)
  | [] => return []
  | module :: rest => do
    let session ← get
    let path := Path.join [directory, module.id ++ ".ll"]
    match session.files.write path module.code.text.toUTF8 with
    | .error failure =>
      throw (.wrapped ("failed to write `" ++ path ++ "`") (.plain failure.message))
    | .ok files =>
      set { session with files := files }
      return path :: (← writeModules directory rest)

/-- Writes the code of every compiled module into a directory, which is made if need be. -/
def writeCode (directory : String) : Compile (List String) := do
  let session ← get
  match FileTree.makeDirectories directory session.files with
  | .error failure files =>
    set { session with files := files }
    throw (.wrapped ("failed to create output directory `" ++ directory ++ "`")
      (.plain failure.message))
  | .ok _ files =>
    set { session with files := files }
    writeModules directory session.sourceModules

end Session

end Kronk
