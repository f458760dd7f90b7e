import Kronk.Proofs.Inclusion

/-!
# What compiling a file can come to

A file is missing, circular, marked as a duplicate, or new; a new file is bound to its id, read,
lowered and registered.  `Outcome` lists the results with what is left of the session, and
`Inclusion` lists the results of an include statement with what is left of the bench.
-/

namespace Kronk.Compile

open Lowering

/-- The id under which a file is compiled: its stem if none is given. -/
def effectiveId (source id : String) : String := if id = "" then Path.stem source else id

/-- The session after a file was bound to an id. -/
def bound (session : Session) (source id : String) : Session :=
  { session with registry := session.registry.recordFile source id }

/-- How the files that a file includes are compiled. -/
def includer (waiting : List String) (source id : String) (fuel : Nat) :
    String → String → Nat → Lower Unit := fun included includedId line => do
  let _ ← whileWaiting
    (file (id :: waiting) (Location.ofLine source line) fuel included includedId)

def lowering (waiting : List String) (fuel : Nat) (source id : String) (content : ByteArray) :
    Lower Unit :=
  body (includer waiting source id fuel) (Text.decode content)

/-- The results of compiling the file `source` under `id`, in a session. -/
inductive Outcome (waiting : List String) (fuel : Nat) (source id : String) (session : Session) :
    EStateM.Result Failure Session String → Prop where
  | missing {failure : Failure} :
      (∀ content, session.files.stat source ≠ .ok (.file content)) →
      Outcome waiting fuel source id session (.error failure session)
  | circular {failure : Failure} {first : String} :
      session.registry.idOfFile? source = some first → first ∈ waiting →
      Outcome waiting fuel source id session (.error failure session)
  | endless {first : String} :
      session.registry.idOfFile? source = some first →
      session.registry.addDuplicate? id first = none →
      Outcome waiting fuel source id session (.error .endless session)
  | duplicate {first : String} {registry : Registry} {log : Log} :
      session.registry.idOfFile? source = some first → first ∉ waiting →
      session.registry.addDuplicate? id first = some registry →
      Outcome waiting fuel source id session (.ok id { session with registry, log })
  | unreadable {failure : Failure} :
      session.registry.idOfFile? source = none →
      session.files.stat source = .ok (.file none) →
      Outcome waiting fuel source id session (.error failure (bound session source id))
  | failed {content : ByteArray} {failure : Failure} {bench : Workbench} :
      session.registry.idOfFile? source = none →
      session.files.stat source = .ok (.file (some content)) →
      lowering waiting fuel source id content ⟨bound session source id, Frame.initial id source⟩ =
        .error failure bench →
      Outcome waiting fuel source id session (.error failure bench.session)
  | compiled {content : ByteArray} {bench : Workbench} {log : Log} :
      session.registry.idOfFile? source = none →
      session.files.stat source = .ok (.file (some content)) →
      lowering waiting fuel source id content ⟨bound session source id, Frame.initial id source⟩ =
        .ok () bench →
      Outcome waiting fuel source id session (.ok id { bench.session with
        registry := bench.session.registry.register (bench.frame.finish (!waiting.isEmpty))
        log := log })

/-- A frame that waits sees of a compilation what it does to the session. -/
theorem whileWaiting_leads {α : Type} {compilation : Compile α} {before failed : Session → Prop}
    {after : α → Session → Prop} (leads : Leads before compilation after failed) :
    Leads (fun bench => before bench.session) (whileWaiting compilation)
      (fun value bench => after value bench.session) fun bench => failed bench.session := by
  intro bench holds
  have outcome := leads bench.session holds
  unfold whileWaiting
  split at outcome
  · rename_i value session found
    simp only [found]
    exact outcome
  · rename_i failure session found
    simp only [found]
    exact outcome

/-- The failure of a file that is there and may not be read. -/
def unreadable (path source : String) : Failure :=
  .wrapped ("failed to read module `" ++ path ++ "`")
    (.plain (FileFailure.mk .openFile source .denied).message)

/-- What compiling a file comes to, where `lowered` is what the lowering of its text comes to. -/
def conclusion (waiting : List String) (includedAt : Location) (path source id : String)
    (session : Session) (lowered : ByteArray → EStateM.Result Failure Workbench Unit) :
    EStateM.Result Failure Session String :=
  match session.files.stat source with
  | .ok (.file content) =>
    match session.registry.idOfFile? source with
    | some first =>
      if waiting.contains first then
        .error (includeFailure includedAt "Circular dependency detected!! Aborting..") session
      else
        match session.registry.addDuplicate? id first with
        | none => .error .endless session
        | some registry =>
          let marked := { session with registry }
          .ok id (marked.trace (id ++ " is already compiled as " ++ first))
    | none =>
      match content with
      | none => .error (unreadable path source) (bound session source id)
      | some content =>
      match lowered content with
      | .error failure bench => .error failure bench.session
      | .ok _ bench =>
        let module := bench.frame.finish (!waiting.isEmpty)
        let registry := bench.session.registry.register module
        let registered := { bench.session with registry }
        .ok id (registered.trace ("Compile Sucess!! (" ++ id ++ ")"))
  | _ =>
    .error (includeFailure includedAt ("The file '" ++ path ++ "' doesn't exist !! ")) session

/-- Compiling a file depends on fuel only through the lowering of its text. -/
theorem file_eq (waiting : List String) (includedAt : Location) (fuel : Nat) (path id : String)
    (session : Session) : file waiting includedAt (fuel + 1) path id session =
      conclusion waiting includedAt path (session.files.absolute path)
        (effectiveId (session.files.absolute path) id) session fun content =>
          lowering waiting fuel (session.files.absolute path)
            (effectiveId (session.files.absolute path) id) content
            ⟨bound session (session.files.absolute path)
              (effectiveId (session.files.absolute path) id),
              Frame.initial (effectiveId (session.files.absolute path) id)
                (session.files.absolute path)⟩ := by
  rw [file]
  simp only [bind, EStateM.bind, get_apply]
  generalize session.files.absolute path = source
  have named : (if id = "" then Path.stem source else id) = effectiveId source id := rfl
  simp only [named]
  generalize effectiveId source id = id
  unfold conclusion
  cases readable : session.files.stat source with
  | error cause => rfl
  | ok node =>
  cases node with
  | directory => rfl
  | file content =>
  cases isBound : session.registry.idOfFile? source with
  | some first =>
    simp only [Registry.bindFile, isBound, Registry.isCircular]
    by_cases isWaiting : waiting.contains first = true
    · simp only [isWaiting]
      rfl
    · simp only [isWaiting]
      cases session.registry.addDuplicate? id first <;> rfl
  | none =>
    simp only [Registry.bindFile, isBound, FileTree.read, readable]
    cases content with
    | none => rfl
    | some content =>
    dsimp only
    change EStateM.bind (inFrame (Frame.initial id source)
      (lowering waiting fuel source id content)) _ (bound session source id) = _
    unfold EStateM.bind inFrame
    cases lowering waiting fuel source id content
        ⟨bound session source id, Frame.initial id source⟩ <;> rfl

theorem file_outcome (waiting : List String) (includedAt : Location) (fuel : Nat)
    (path id : String) (session : Session) : Outcome waiting fuel (session.files.absolute path)
      (effectiveId (session.files.absolute path) id) session
      (file waiting includedAt (fuel + 1) path id session) := by
  rw [file_eq]
  generalize session.files.absolute path = source
  generalize effectiveId source id = id
  unfold conclusion
  split
  · rename_i readable
    split
    · rename_i isBound
      split
      · rename_i isWaiting
        exact .circular isBound (List.contains_iff_mem.mp isWaiting)
      · rename_i absent
        split
        · rename_i marked
          exact .endless isBound marked
        · rename_i marked
          exact .duplicate isBound (fun member => absent (List.contains_iff_mem.mpr member)) marked
    · rename_i isNew
      split
      · exact .unreadable isNew readable
      · split
        · rename_i lowered
          exact .failed isNew readable lowered
        · rename_i lowered
          exact .compiled isNew readable lowered
  · rename_i unreadable
    exact .missing unreadable

theorem compileEntry_eq (path id : String) (session : Session) :
    Session.compileEntry path id session =
      file [] {} (session.files.files.length + 1) path id session := by
  rw [Session.compileEntry]
  rfl

def readNext (reading : Source.Reading) (bench : Workbench) :=
  let module := bench.frame.module
  ({ reading with signatures := module.signatures, trace := [] } : Source.Reading).statement
    ⟨module.file, module, bench.session.registry⟩

def withDependency (bench : Workbench) (localName : String) : Workbench :=
  let module := bench.frame.module
  let extended := { module with dependencies := module.dependencies ++ [localName] }
  { bench with frame := { bench.frame with module := extended } }

def withModule (bench : Workbench) (module : Module) : Workbench :=
  { bench with session :=
      { bench.session with registry := bench.session.registry.register module } }

def withLog (bench : Workbench) (log : Log) : Workbench :=
  { bench with session := { bench.session with log } }

structure Call where
  path : String
  id : String
  line : Nat
  bench : Workbench

def Call.answer (call : Call) (compileIncluded : String → String → Nat → Lower Unit) :
    EStateM.Result Failure Workbench Unit :=
  compileIncluded call.path call.id call.line call.bench

/-- The call that an include statement of a file makes on a bench. -/
def Call.of (written : Source.Include) (path : List String) (bench : Workbench) : Call :=
  let file := bench.session.locateInclude bench.frame.module.file path
  { path := file
    id := Name.includeId bench.frame.module.id written.id
    line := written.line
    bench := withLog bench
      (bench.session.log.trace ("Starting compilation of included file " ++ file)) }

/-- An include statement of a file under a new alias comes to what its call comes to. -/
theorem inclusion_file {compileIncluded : Includer}
    {written : Source.Include} {path : List String}
    {bench : Workbench} (target : written.target = .file path)
    (unused : written.id ∉ bench.frame.module.dependencies) :
    inclusion compileIncluded written bench =
      match (Call.of written path bench).answer compileIncluded with
      | .ok _ after => .ok () (withLog (withDependency after written.id) (after.session.log.trace
        ("Successfully compiled included module " ++
          Name.includeId bench.frame.module.id written.id)))
      | .error failure final => .error failure final := by
  have first : bench.frame.module.hasDependency written.id = false := by
    simpa [Module.hasDependency] using unused
  rw [inclusion]
  simp only [bind, EStateM.bind, Lower.currentModule, get_apply, pure, EStateM.pure,
    first, target, Bool.false_eq_true, if_false, Lower.trace, modify_apply, Session.trace,
    Call.answer, Call.of, withLog]
  generalize compileIncluded _ _ written.line _ = result
  cases result with
  | ok value after => rfl
  | error failure final => rfl

/-- The results of an include statement on a bench. -/
inductive Inclusion (compileIncluded : String → String → Nat → Lower Unit)
    (written : Source.Include) (bench : Workbench) :
    EStateM.Result Failure Workbench Unit → Prop where
  | refused {failure : Failure} :
      Inclusion compileIncluded written bench (.error failure bench)
  | runtime {name : String} :
      written.target = .runtime name → Catalogue.hasModule name = true →
      written.id ∉ bench.frame.module.dependencies →
      Inclusion compileIncluded written bench (.ok () (withDependency (withModule bench
        (Module.ofRuntime (Name.includeId bench.frame.module.id written.id) name)) written.id))
  | failed {path : String} {log : Log} {failure : Failure} {after : Workbench} :
      written.id ∉ bench.frame.module.dependencies →
      compileIncluded path (Name.includeId bench.frame.module.id written.id) written.line
        (withLog bench log) = .error failure after →
      Inclusion compileIncluded written bench (.error failure after)
  | included {path : String} {log later : Log} {after : Workbench} :
      written.id ∉ bench.frame.module.dependencies →
      compileIncluded path (Name.includeId bench.frame.module.id written.id) written.line
        (withLog bench log) = .ok () after →
      Inclusion compileIncluded written bench
        (.ok () (withLog (withDependency after written.id) later))

theorem inclusion_cases (compileIncluded : Includer)
    (written : Source.Include) (bench : Workbench) :
    Inclusion compileIncluded written bench (inclusion compileIncluded written bench) := by
  by_cases repeated : bench.frame.module.hasDependency written.id = true
  · rw [inclusion]
    simp only [bind, EStateM.bind, Lower.currentModule, get_apply, pure, EStateM.pure,
      repeated]
    exact .refused
  have unused : written.id ∉ bench.frame.module.dependencies := fun member =>
    repeated (List.contains_iff_mem.mpr member)
  cases named : written.target with
  | runtime name =>
    rw [inclusion]
    simp only [bind, EStateM.bind, Lower.currentModule, get_apply, pure, EStateM.pure,
      repeated, named]
    cases known : Catalogue.hasModule name with
    | false => exact .refused
    | true => exact .runtime named known unused
  | file path =>
    rw [inclusion_file named unused]
    cases compiled : (Call.of written path bench).answer compileIncluded with
    | ok value after => exact .included unused compiled
    | error failure after => exact .failed unused compiled

/-! ## Invariants of the registry -/

/-- An invariant of registries that no step of a compilation breaks; a file is registered after its
text was lowered in a session that has the invariant. -/
structure Stable (invariant : Registry → Prop) : Prop where
  duplicate {registry marked : Registry} {source id first : String} :
    registry.idOfFile? source = some first → registry.addDuplicate? id first = some marked →
    invariant registry → invariant marked
  recordFile {registry : Registry} {source : String} (id : String) :
    registry.idOfFile? source = none → invariant registry →
      invariant (registry.recordFile source id)
  runtime {registry : Registry} (id name : String) :
    invariant registry → invariant (registry.register (Module.ofRuntime id name))
  compiled {waiting : List String} {fuel : Nat} {source id : String} {content : ByteArray}
      {session : Session} {bench : Workbench} :
    invariant (bound session source id).registry →
    lowering waiting fuel source id content ⟨bound session source id, Frame.initial id source⟩ =
      .ok () bench →
    invariant bench.session.registry →
    invariant (bench.session.registry.register (bench.frame.finish (!waiting.isEmpty)))

namespace Stable

variable {invariant : Registry → Prop}

theorem calm : Calm (fun bench => invariant bench.session.registry)
    fun bench => invariant bench.session.registry where
  quiet before after quiet holds := by
    rw [quiet.registry]
    exact holds
  breaks _ holds := holds

theorem inclusion (stable : Stable invariant) {written : Source.Include}
    {compileIncluded : Includer}
    (compiles : ∀ path id line, Preserves (fun bench => invariant bench.session.registry)
      (fun bench => invariant bench.session.registry) (compileIncluded path id line)) :
    Preserves (fun bench => invariant bench.session.registry)
      (fun bench => invariant bench.session.registry) (inclusion compileIncluded written) := by
  intro bench holds
  have results := inclusion_cases compileIncluded written bench
  generalize Lowering.inclusion compileIncluded written bench = outcome at results
  cases results with
  | refused => exact holds
  | runtime target known new => exact stable.runtime _ _ holds
  | failed new fails => exact (compiles _ _ _).of_error fails holds
  | included new includes =>
    have included := (compiles _ _ _).of_ok includes holds
    exact included

/-- The lowering of a text keeps what the compilation of included files keeps. -/
theorem lowering (stable : Stable invariant) {fuel : Nat}
    (compiles : ∀ waiting includedAt path id, Preserves (fun session => invariant session.registry)
      (fun session => invariant session.registry) (file waiting includedAt fuel path id))
    (waiting : List String) (source id : String) (content : ByteArray) :
    Preserves (fun bench => invariant bench.session.registry)
      (fun bench => invariant bench.session.registry)
      (lowering waiting fuel source id content) := by
  refine body_preserves calm (fun written _ => stable.inclusion ?_) _
  exact fun _ _ _ => .bind (whileWaiting_leads (compiles _ _ _ _)) fun _ => .pure _

/-- Compiling a file keeps a stable invariant, whether it succeeds or fails. -/
theorem file (stable : Stable invariant) (waiting : List String) (includedAt : Location)
    (fuel : Nat) (path id : String) : Preserves (fun session => invariant session.registry)
      (fun session => invariant session.registry) (file waiting includedAt fuel path id) := by
  induction fuel generalizing waiting includedAt path id with
  | zero => exact .throw (fun _ holds => holds) _
  | succ fuel ih =>
    have lowers := stable.lowering ih waiting
    intro session holds
    have results := file_outcome waiting includedAt fuel path id session
    generalize Compile.file waiting includedAt (fuel + 1) path id session = outcome at results
    generalize session.files.absolute path = source at results
    generalize effectiveId source id = name at results
    cases results with
    | missing | circular | endless => exact holds
    | duplicate isBound free added => exact stable.duplicate isBound added holds
    | unreadable isNew _ => exact stable.recordFile _ isNew holds
    | failed isNew readable fails =>
      exact (lowers _ _ _).of_error fails (stable.recordFile _ isNew holds)
    | compiled isNew readable outcome =>
      have starts := stable.recordFile name isNew holds
      exact stable.compiled starts outcome ((lowers _ _ _).of_ok outcome starts)

end Stable

end Kronk.Compile
