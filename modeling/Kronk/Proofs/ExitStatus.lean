import Kronk.CommandLine
import Kronk.Proofs.Compilation

/-!
# How a run of the command ends

A build tells the log debug messages, then either the one failure that ended it or the paths that
were written.  The command prints the log and exits with status zero or two: it takes the status
from the log when the failure has been flushed from it.
-/

namespace Kronk

namespace Compile

open Lowering

variable {start : Log}

theorem traced_calm (start : Log) : Calm (fun bench => start.Traced bench.session.log)
      (fun bench => start.Traced bench.session.log) where
  quiet _ _ quiet traced := traced.trans quiet.log
  breaks _ traced := traced

theorem inclusion_traced {compileIncluded : Includer}
    (compiles : ∀ path id line, Preserves (fun bench => start.Traced bench.session.log)
      (fun bench => start.Traced bench.session.log) (compileIncluded path id line))
    (written : Source.Include) : Preserves (fun bench => start.Traced bench.session.log)
      (fun bench => start.Traced bench.session.log) (inclusion compileIncluded written) := by
  have calm := traced_calm start
  have addDependency (localName : String) : Preserves (fun bench => start.Traced bench.session.log)
      (fun bench => start.Traced bench.session.log) (Lowering.addDependency localName) :=
    .modify fun _ traced => traced
  refine .bind (calm.placid.framed (.consults .currentModule)) fun module => calm.placid.guard ?_
  dsimp only
  split
  · exact calm.placid.guard (.bind (.modify fun _ traced => traced) fun _ => addDependency _)
  · refine .bind .get fun bench => .bind (calm.placid.framed (.trace _)) fun _ => ?_
    refine .bind (compiles _ _ _) fun _ => ?_
    exact .bind (addDependency _) fun _ => calm.placid.framed (.trace _)

/-- Compiling a file tells the log nothing but debug messages, whether it succeeds or fails. -/
theorem file_traced (fuel : Nat) (waiting : List String) (includedAt : Location)
    (path id : String) :
    Preserves (fun session => start.Traced session.log) (fun session => start.Traced session.log)
      (file waiting includedAt fuel path id) := by
  induction fuel generalizing waiting includedAt path id with
  | zero => exact .throw (fun _ traced => traced) _
  | succ fuel ih =>
    intro session traced
    have includes (source id : String) (path includedId : String) (line : Nat) :
        Preserves (fun bench => start.Traced bench.session.log)
          (fun bench => start.Traced bench.session.log)
          (includer waiting source id fuel path includedId line) := by
      refine .bind ?_ fun _ => .pure _
      exact whileWaiting_leads (ih (id :: waiting) _ path includedId)
    have lowers := body_preserves (traced_calm start)
      (fun written _ => inclusion_traced
        (includes (session.files.absolute path)
          (effectiveId (session.files.absolute path) id)) written)
    rw [file_eq]
    unfold conclusion
    cases session.files.stat (session.files.absolute path) with
    | error cause => exact traced
    | ok node =>
      cases node with
      | directory => exact traced
      | file content =>
        cases session.registry.idOfFile? (session.files.absolute path) with
        | some first =>
          by_cases circular : waiting.contains first = true
          · simpa only [circular, if_true] using traced
          · simp only [circular, Bool.false_eq_true, if_false]
            cases session.registry.addDuplicate?
              (effectiveId (session.files.absolute path) id) first with
            | none => exact traced
            | some registry => exact traced.trans (.trace _ _)
        | none =>
          cases content with
          | none => exact traced
          | some content =>
          have lowered := lowers (Text.decode content)
            ⟨bound session (session.files.absolute path)
                (effectiveId (session.files.absolute path) id),
              Frame.initial (effectiveId (session.files.absolute path) id)
                (session.files.absolute path)⟩ traced
          dsimp only [lowering]
          revert lowered
          generalize body _ _ _ = result
          intro lowered
          cases result with
          | error failure bench => exact lowered
          | ok _ bench => exact Log.Traced.trans lowered (.trace _ _)

theorem compileEntry_traced (path id : String) :
    Preserves (fun session => start.Traced session.log) (fun session => start.Traced session.log)
      (Session.compileEntry path id) := by
  intro session traced
  rw [compileEntry_eq]
  exact file_traced _ _ _ _ _ session traced

private theorem writeModules_traced (directory : String) (modules : List Module) :
    Preserves (fun session => start.Traced session.log) (fun session => start.Traced session.log)
      (Session.writeModules directory modules) := by
  induction modules with
  | nil => exact .pure _
  | cons module rest ih =>
    intro session traced
    simp only [Session.writeModules, bind, EStateM.bind, get_apply]
    cases session.files.write (Path.join [directory, module.id ++ ".ll"])
      module.code.text.toUTF8 with
    | error failure => exact traced
    | ok files =>
      exact Preserves.bind ih (fun _ => .pure _) { session with files } traced

theorem writeCode_traced (directory : String) :
    Preserves (fun session => start.Traced session.log) (fun session => start.Traced session.log)
      (Session.writeCode directory) := by
  intro session traced
  simp only [Session.writeCode, bind, EStateM.bind, get_apply]
  cases FileTree.makeDirectories directory session.files with
  | error failure files => exact traced
  | ok _ files => exact writeModules_traced directory _ { session with files } traced

end Compile

namespace Build

private theorem traced_noted (log : Log) (loader : Loader) : log.Traced (noted log loader) := by
  obtain ⟨files, notes⟩ := loader
  induction notes generalizing log with
  | nil => exact .refl log
  | cons note rest ih =>
    exact (Log.Traced.trace log note.message).trans (ih _)

private theorem compile_traced {start : Log} (options : BuildOptions) (project : Project) :
    Preserves (fun session => start.Traced session.log) (fun session => start.Traced session.log)
      (compile options project) :=
  .bind (Compile.compileEntry_traced _ _) fun _ => Compile.writeCode_traced _

section

variable (tools : Toolbox) (files : FileTree) (log : Log) (target : String)
  (options : BuildOptions)

/-- What loading the project of a build comes to. -/
def loads : EStateM.Result Failure Loader Project :=
  Project.load tools.toLibraries target options.cacheDirectory options.upgrade { files := files }

/-- The stages in which a build can fail, with the failure.  A panic is no failure of a stage, nor
is a compilation that never ends. -/
inductive Fails : Failure → Prop where
  | loading {failure : Failure} {loader : Loader} :
      loads tools files target options = .error failure loader → Fails failure
  | compiling {project : Project} {loader : Loader} {failure : Failure} {after : Session} :
      loads tools files target options = .ok project loader →
      Session.compileEntry project.entry "" (session tools log project loader) =
        .error failure after →
      failure.isFatal = false → Fails failure
  | writing {project : Project} {loader : Loader} {id : String} {failure : Failure}
      {compiled after : Session} :
      loads tools files target options = .ok project loader →
      Session.compileEntry project.entry "" (session tools log project loader) = .ok id compiled →
      Session.writeCode (outDirectory options project) compiled = .error failure after →
      Fails failure

end

variable {tools : Toolbox} {files : FileTree} {log : Log} {target : String}
  {options : BuildOptions}

theorem Fails.unique {first second : Failure} (fails : Fails tools files log target options first)
    (other : Fails tools files log target options second) : first = second := by
  cases fails with
  | loading loaded =>
    cases other with
    | loading again =>
      cases loaded.symm.trans again
      rfl
    | compiling again => cases loaded.symm.trans again
    | writing again => cases loaded.symm.trans again
  | compiling loaded compiled =>
    cases other with
    | loading again => cases loaded.symm.trans again
    | compiling again compiledAgain =>
      cases loaded.symm.trans again
      cases compiled.symm.trans compiledAgain
      rfl
    | writing again compiledAgain =>
      cases loaded.symm.trans again
      cases compiled.symm.trans compiledAgain
  | writing loaded compiled written =>
    cases other with
    | loading again => cases loaded.symm.trans again
    | compiling again compiledAgain =>
      cases loaded.symm.trans again
      cases compiled.symm.trans compiledAgain
    | writing again compiledAgain writtenAgain =>
      cases loaded.symm.trans again
      cases compiled.symm.trans compiledAgain
      cases written.symm.trans writtenAgain
      rfl

theorem isFatal_of_writeModules {directory : String} {modules : List Module}
    {compiled after : Session} {failure : Failure}
    (fails : Session.writeModules directory modules compiled = .error failure after) :
    failure.isFatal = false := by
  induction modules generalizing compiled with
  | nil => cases fails
  | cons module rest ih =>
    simp only [Session.writeModules, bind, EStateM.bind, get_apply] at fails
    cases written : compiled.files.write (Path.join [directory, module.id ++ ".ll"])
        module.code.text.toUTF8 with
    | error cause =>
      rw [written] at fails
      cases fails
      rfl
    | ok files =>
      rw [written] at fails
      change EStateM.bind (Session.writeModules directory rest) _ { compiled with files } = _
        at fails
      unfold EStateM.bind at fails
      split at fails
      · cases fails
      · rename_i later
        cases fails
        exact ih later

private theorem isFatal_of_writeCode {directory : String} {compiled after : Session}
    {failure : Failure} (fails : Session.writeCode directory compiled = .error failure after) :
    failure.isFatal = false := by
  simp only [Session.writeCode, bind, EStateM.bind, get_apply] at fails
  cases made : FileTree.makeDirectories directory compiled.files with
  | error cause files =>
    rw [made] at fails
    cases fails
    rfl
  | ok _ files =>
    rw [made] at fails
    exact isFatal_of_writeModules fails

theorem foldl_info (log : Log) (paths : List String) :
    paths.foldl (fun log path => log.info ("wrote " ++ path)) log =
      { log with messages := log.messages ++ paths.map fun path => .line ("wrote " ++ path) } := by
  induction paths generalizing log with
  | nil => simp
  | cons path rest ih =>
    rw [List.foldl_cons, ih]
    simp [Log.info]

/-- How a build ends: with a failure and no path, with the paths that were written, or not at
all. -/
inductive Ending (tools : Toolbox) (files : FileTree) (log : Log) (target : String)
    (options : BuildOptions) : Except Failure Build → Prop where
  | failed {failure : Failure} {told : Log} {after : FileTree} :
      Fails tools files log target options failure → log.Traced told →
      Ending tools files log target options (.ok { files := after, log := told.fail failure })
  | wrote {told : Log} {after : FileTree} {paths : List String} :
      (∀ failure, ¬Fails tools files log target options failure) → log.Traced told →
      Ending tools files log target options (.ok
        { files := after
          log := paths.foldl (fun log path => log.info ("wrote " ++ path)) told
          artifacts := paths })
  | stopped {failure : Failure} :
      (∀ failure, ¬Fails tools files log target options failure) →
      Ending tools files log target options (.error failure)

theorem run_ending (tools : Toolbox) (files : FileTree) (log : Log) (target : String)
    (options : BuildOptions) :
    Ending tools files log target options (run tools files log target options) := by
  rw [run, ← loads]
  cases loaded : loads tools files target options with
  | error failure loader => exact .failed (.loading loaded) (traced_noted log loader)
  | ok project loader =>
    have starts : log.Traced (session tools log project loader).log :=
      (traced_noted log loader).trans (.dump _ _ _)
    have traced := compile_traced options project (session tools log project loader) starts
    unfold compile at traced ⊢
    simp only [bind, EStateM.bind] at traced ⊢
    generalize compiled : Session.compileEntry project.entry "" _ = outcome at traced ⊢
    cases outcome with
    | error failure after =>
      dsimp only
      cases fatal : failure.isFatal with
      | false => exact .failed (.compiling loaded compiled fatal) traced
      | true =>
        refine .stopped ?_
        intro other fails
        cases fails with
        | loading otherLoaded => cases loaded.symm.trans otherLoaded
        | compiling otherLoaded otherCompiled ordinary =>
          cases loaded.symm.trans otherLoaded
          cases compiled.symm.trans otherCompiled
          cases fatal.symm.trans ordinary
        | writing otherLoaded otherCompiled =>
          cases loaded.symm.trans otherLoaded
          cases compiled.symm.trans otherCompiled
    | ok id between =>
      dsimp only at traced ⊢
      cases written : Session.writeCode (outDirectory options project) between with
      | error failure after =>
        rw [written] at traced
        simp only [isFatal_of_writeCode written]
        exact .failed (.writing loaded compiled written) traced
      | ok paths after =>
        rw [written] at traced
        refine .wrote ?_ traced
        intro failure fails
        cases fails with
        | loading otherLoaded => cases loaded.symm.trans otherLoaded
        | compiling otherLoaded otherCompiled =>
          cases loaded.symm.trans otherLoaded
          cases compiled.symm.trans otherCompiled
        | writing otherLoaded otherCompiled otherWritten =>
          cases loaded.symm.trans otherLoaded
          cases compiled.symm.trans otherCompiled
          cases written.symm.trans otherWritten

end Build

namespace CommandLine

/-- The log that a run prints.  It is empty if nothing is to be built, or nothing comes of it. -/
def printedLog (tools : Toolbox) (files : FileTree) (home : String) (arguments : List String) :
    Log :=
  match parse (defaults home) arguments with
  | .error _ => {}
  | .ok (options, inputs) =>
    if options.version then {}
    else
      match build tools files options inputs with
      | .ok built => built.log
      | .error _ => {}

/-- What can go wrong in a run whose flags are accepted, with the failure. -/
inductive Fails (tools : Toolbox) (files : FileTree) (home : String) (arguments : List String) :
    Failure → Prop where
  | inputs {options : Options} {inputs : List String} :
      parse (defaults home) arguments = .ok (options, inputs) → options.version = false →
      inputs.length ≠ 1 → Fails tools files home arguments inputFailure
  | building {options : Options} {target : String} {failure : Failure} :
      parse (defaults home) arguments = .ok (options, [target]) → options.version = false →
      Build.Fails tools files { debug := options.debug } target
        { outDirectory := options.out, cacheDirectory := options.cache, upgrade := options.upgrade }
        failure →
      Fails tools files home arguments failure

/-- How the log of a run ends: with the failure of the run behind debug messages, or without a
failure. -/
inductive Ending (tools : Toolbox) (files : FileTree) (home : String) (arguments : List String) :
    Log → Prop where
  | failed {failure : Failure} {debug : Bool} {told : Log} :
      Fails tools files home arguments failure → Log.Traced { debug } told →
      Ending tools files home arguments (told.fail failure)
  | succeeded {log : Log} :
      (∀ failure, ¬Fails tools files home arguments failure) → log.failures = [] →
      Ending tools files home arguments log

variable {tools : Toolbox} {files : FileTree} {home : String} {arguments : List String}
  {failure : Failure}

theorem Fails.parsed (fails : Fails tools files home arguments failure) :
    ∃ options inputs, parse (defaults home) arguments = .ok (options, inputs) ∧
      options.version = false := by
  cases fails with
  | inputs parsed building _ => exact ⟨_, _, parsed, building⟩
  | building parsed building _ => exact ⟨_, _, parsed, building⟩

theorem printedLog_ending (tools : Toolbox) (files : FileTree) (home : String)
    (arguments : List String) :
    Ending tools files home arguments (printedLog tools files home arguments) := by
  unfold printedLog
  cases parsed : parse (defaults home) arguments with
  | error error =>
    refine .succeeded ?_ rfl
    intro failure fails
    obtain ⟨_, _, otherParsed, _⟩ := fails.parsed
    cases parsed.symm.trans otherParsed
  | ok found =>
    obtain ⟨options, inputs⟩ := found
    dsimp only
    by_cases version : options.version = true
    · rw [if_pos version]
      refine .succeeded ?_ rfl
      intro failure fails
      obtain ⟨_, _, otherParsed, building⟩ := fails.parsed
      cases parsed.symm.trans otherParsed
      cases version.symm.trans building
    · rw [if_neg version]
      rw [Bool.not_eq_true] at version
      by_cases single : inputs.length = 1
      · obtain ⟨target, rfl⟩ := List.length_eq_one_iff.mp single
        have ending := Build.run_ending tools files { debug := options.debug } target
          { outDirectory := options.out, cacheDirectory := options.cache,
            upgrade := options.upgrade }
        have none : (∀ failure, ¬Build.Fails tools files { debug := options.debug } target
            { outDirectory := options.out, cacheDirectory := options.cache,
              upgrade := options.upgrade } failure) →
            ∀ failure, ¬Fails tools files home arguments failure := by
          intro succeeds failure fails
          cases fails with
          | inputs otherParsed _ several =>
            cases parsed.symm.trans otherParsed
            exact several rfl
          | building otherParsed _ fails =>
            cases parsed.symm.trans otherParsed
            exact succeeds failure fails
        unfold build
        dsimp only
        generalize Build.run tools files _ target _ = built at ending ⊢
        cases ending with
        | failed fails traced => exact .failed (.building parsed version fails) traced
        | wrote succeeds traced =>
          refine .succeeded (none succeeds) ?_
          rw [Build.foldl_info]
          exact traced.failures
        | stopped succeeds => exact .succeeded (none succeeds) rfl
      · have noTarget : build tools files options inputs =
            .ok { files, log := ({ debug := options.debug } : Log).fail inputFailure } := by
          unfold build
          split
          · exact absurd rfl single
          · rfl
        rw [noTarget]
        exact .failed (.inputs parsed version single) (.refl _)

theorem Fails.unique {first second : Failure} (fails : Fails tools files home arguments first)
    (other : Fails tools files home arguments second) : first = second := by
  cases fails with
  | inputs parsed _ several =>
    cases other with
    | inputs => rfl
    | building again =>
      cases parsed.symm.trans again
      exact absurd rfl several
  | building parsed _ fails =>
    cases other with
    | inputs again _ several =>
      cases parsed.symm.trans again
      exact absurd rfl several
    | building again _ failsAgain =>
      cases parsed.symm.trans again
      exact Build.Fails.unique fails failsAgain

/-- The log of a run that fails has its failure behind the debug messages. -/
theorem Ending.of_fails {log : Log} (ending : Ending tools files home arguments log)
    (fails : Fails tools files home arguments failure) :
    ∃ debug told, Log.Traced { debug } told ∧ log = told.fail failure := by
  cases ending with
  | failed isFailure traced =>
    rw [fails.unique isFailure]
    exact ⟨_, _, traced, rfl⟩
  | succeeded succeeds _ => exact absurd fails (succeeds failure)

theorem Ending.mem_failures_iff {log : Log} (ending : Ending tools files home arguments log)
    (failure : Failure) : failure ∈ log.failures ↔ Fails tools files home arguments failure := by
  constructor
  · intro member
    cases ending with
    | failed fails traced =>
      rw [Log.fail, traced.failures, List.nil_append, List.mem_singleton] at member
      rw [member]
      exact fails
    | succeeded _ none =>
      rw [none] at member
      cases member
  · intro fails
    obtain ⟨debug, told, _, rfl⟩ := ending.of_fails fails
    simp [Log.fail]

/-- A run exits with status zero, or with status two if its flags are refused or it panics. -/
theorem status_ne_one {outcome : Outcome} (ends : run tools files home arguments = some outcome) :
    outcome.status ≠ 1 := by
  unfold run at ends
  split at ends
  · rename_i error _
    cases ends
    cases error <;> simp [FlagError.status]
  · split at ends
    · cases ends
      simp
    · split at ends
      · cases ends
        simp [Log.flush, Log.hasFailures]
      · cases ends
        simp
      · cases ends

/-- A run that fails prints its log, where the failure is. -/
theorem run_of_fails (fails : Fails tools files home arguments failure) :
    ∃ outcome, run tools files home arguments = some outcome ∧ outcome.status = 0 ∧
      outcome.output = (printedLog tools files home arguments).flushed := by
  obtain ⟨options, inputs, parsed, building⟩ := fails.parsed
  have told := ((printedLog_ending tools files home arguments).mem_failures_iff failure).mpr fails
  unfold run
  simp only [printedLog, parsed, building, Bool.false_eq_true, if_false] at told ⊢
  cases built : build tools files options inputs with
  | ok result => exact ⟨_, rfl, by simp [Log.flush, Log.hasFailures], rfl⟩
  | error cause =>
    rw [built] at told
    cases told

private theorem not_wrote_of_marked {text : List Char} (marked : Log.debugMark.toList <+: text) :
    ¬"wrote ".toList <+: text := by
  obtain ⟨rest, rfl⟩ := marked
  rintro ⟨other, same⟩
  cases same

/-- The log of a run has the failure that ended it, if there is one.  A run that fails prints its
debug messages, none of which tells of a written file, and then the text of the failure; and it
exits with status zero, as a run that succeeds does.  No run exits with status one. -/
theorem failed_run_exits_zero (tools : Toolbox) (files : FileTree) (home : String)
    (arguments : List String) :
    let log := printedLog tools files home arguments
    (∀ outcome, run tools files home arguments = some outcome → outcome.status ≠ 1) ∧
    (∀ failure, failure ∈ log.failures ↔ Fails tools files home arguments failure) ∧
    ∀ failure, Fails tools files home arguments failure →
      ∃ outcome, run tools files home arguments = some outcome ∧ outcome.status = 0 ∧
      outcome.output = String.join (log.messages.map fun message => message.text ++ "\n") ++
        (Log.trimNewLines failure.text ++ "\n") ∧
      (∀ message ∈ log.messages, ¬"wrote ".toList <+: message.text.toList) ∧
      (log.debug = false → log.messages = []) := by
  intro log
  have ending : Ending tools files home arguments log :=
    printedLog_ending tools files home arguments
  refine ⟨fun _ => status_ne_one, ending.mem_failures_iff, ?_⟩
  intro failure fails
  obtain ⟨outcome, ends, status, output⟩ := run_of_fails fails
  obtain ⟨debug, told, traced, isLog⟩ := ending.of_fails fails
  obtain ⟨said, isSaid, marked⟩ := traced.messages
  rw [List.nil_append] at isSaid
  have messages : log.messages = said := by
    rw [isLog]
    exact isSaid
  have failures : log.failures = [failure] := by
    rw [isLog, Log.fail, traced.failures, List.nil_append]
  refine ⟨outcome, ends, status, ?_, ?_, ?_⟩
  · rw [show outcome.output = log.flushed from output, Log.flushed, failures]
    simp
  · intro message member
    rw [messages] at member
    exact not_wrote_of_marked (marked message member).2
  · intro noDebug
    have isDebug : debug = false := by
      rw [← noDebug, isLog]
      exact traced.debug.symm
    rw [messages, List.eq_nil_iff_forall_not_mem]
    intro message member
    cases isDebug.symm.trans (marked message member).1

/-- A run without an input has a failure in its log and exits with status zero. -/
example (tools : Toolbox) : (printedLog tools {} "/home" []).hasFailures = true ∧
    (run tools {} "/home" []).map Outcome.status = some 0 :=
  ⟨rfl, rfl⟩

end CommandLine

end Kronk
