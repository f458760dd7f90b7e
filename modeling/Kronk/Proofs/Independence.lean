import Kronk.Proofs.Nesting
import Kronk.Proofs.Overlay

/-!
# Compilations that do not see each other

A compilation in a session that has compiled before is compared with the same compilation in a new
session.  The registry of the one stays laid over the old registry while the other one grows alone,
and both do the same: they read the same text, find the same modules and emit the same code.
-/

namespace Kronk

/-- Everything in the registry is new to the old one, and its ids can be read back from names. -/
structure Registry.NewTo (old registry : Registry) : Prop where
  plain : ∀ id, registry.Knows id → Name.IsPlain id
  new : ∀ id, registry.Knows id → ¬old.Knows id
  unbound : ∀ path id, registry.idOfFile? path = some id → old.idOfFile? path = none

namespace Registry

variable {before after : Registry} {id : String}

theorem Step.idOfFile? (step : Step before after) {path : String}
    (isBound : before.idOfFile? path = some id) : after.idOfFile? path = some id := by
  cases step with
  | register module => exact isBound
  | @record other newId unbound =>
    have different : path ≠ other := by
      rintro rfl
      cases unbound.symm.trans isBound
    simpa [Registry.idOfFile?, recordFile, different] using isBound
  | duplicate _ marked =>
    obtain ⟨target, -, rfl⟩ := Option.map_eq_some_iff.mp marked
    exact isBound

theorem Reaches.idOfFile? (reaches : Reaches before after) {path : String}
    (isBound : before.idOfFile? path = some id) : after.idOfFile? path = some id := by
  induction reaches with
  | refl => exact isBound
  | tail _ step ih => exact step.idOfFile? ih

/-- A registry was new to the old one if what became of it is. -/
theorem NewTo.earlier {old : Registry} (isNew : NewTo old after) (reaches : Reaches before after) :
    NewTo old before where
  plain id known := isNew.plain id (reaches.knows known)
  new id known := isNew.new id (reaches.knows known)
  unbound path id isBound := isNew.unbound path id (reaches.idOfFile? isBound)

/-- Names of the modules of a registry stand for nothing in the old one. -/
theorem NewTo.clear {old registry : Registry} (isNew : NewTo old registry)
    (known : registry.Knows id) (kind : NameKind) (symbol : String) :
    Clear old (Name.mangle kind id symbol) := by
  intro parts demangled
  rw [Name.module_of_demangle (isNew.plain id known) demangled]
  exact isNew.new id known

end Registry

/-- Sessions that differ by an old registry underneath. -/
structure Session.Twin (old : Registry) (first second : Session) : Prop where
  files : second.files = first.files
  searchPaths : second.searchPaths = first.searchPaths
  overlays : Registry.Overlays old first.registry second.registry

/-- Two results are the same but for the states, which are related. -/
inductive Matching {ε σ α : Type} (related failed : σ → σ → Prop) :
    EStateM.Result ε σ α → EStateM.Result ε σ α → Prop where
  | ok {value : α} {first second : σ} :
      related first second → Matching related failed (.ok value first) (.ok value second)
  | error {failure : ε} {first second : σ} :
      failed first second → Matching related failed (.error failure first) (.error failure second)

namespace Matching

variable {ε σ α : Type} {related failed : σ → σ → Prop} {first : σ}
  {result : EStateM.Result ε σ α}

theorem of_ok {value : α} (matching : Matching related failed (.ok value first) result) :
    ∃ second, result = .ok value second ∧ related first second := by
  cases matching with
  | ok holds => exact ⟨_, rfl, holds⟩

theorem of_error {failure : ε} (matching : Matching related failed (.error failure first) result) :
    ∃ second, result = .error failure second ∧ failed first second := by
  cases matching with
  | error holds => exact ⟨_, rfl, holds⟩

end Matching

namespace Lowering

open Compile Source

/-- Benches with the same frame in sessions that differ by an old registry underneath.  The registry
knows the module of the frame and the modules that it includes. -/
structure Workbench.Twin (old : Registry) (first second : Workbench) : Prop where
  frame : first.frame = second.frame
  session : first.session.Twin old second.session
  own : first.session.registry.Knows first.frame.module.id
  aliases : ∀ localName ∈ first.frame.module.dependencies,
    first.session.registry.Knows (Name.includeId first.frame.module.id localName)

/-- What is left of twin benches after a failure. -/
def Workbench.Kin (old : Registry) (first second : Workbench) : Prop :=
  first.frame = second.frame ∧ first.session.Twin old second.session

theorem Workbench.Twin.kin {old : Registry} {first second : Workbench}
    (twin : first.Twin old second) : first.Kin old second :=
  ⟨twin.frame, twin.session⟩

/-- Two lowerings do the same on benches that differ by an old registry underneath, as long as what
the first one adds to its registry is new to the old one. -/
structure Alike (old : Registry) {α : Type} (one other : Lower α) : Prop where
  grows : ∀ start, Preserves (ReachedFrom start) (ReachedFrom start) one
  matching : ∀ first second, first.Twin old second →
    Registry.NewTo old (finalState (one first)).session.registry →
    Matching (Workbench.Twin old) (Workbench.Kin old) (one first) (other second)

namespace Alike

variable {old : Registry} {α β : Type}

theorem pure (value : α) : Alike old (Pure.pure value) (Pure.pure value) where
  grows _ := .pure value
  matching _ _ twin _ := .ok twin

theorem throw (failure : Failure) :
    Alike old (MonadExcept.throw failure : Lower α) (MonadExcept.throw failure) where
  grows _ := .throw (fun _ reached => reached) failure
  matching _ _ twin _ := .error twin.kin

theorem bind {one other : Lower α} {next following : α → Lower β} (alike : Alike old one other)
    (later : ∀ value, Alike old (next value) (following value)) :
    Alike old (one >>= next) (other >>= following) where
  grows start := .bind (alike.grows start) fun value => (later value).grows start
  matching first second twin isNew := by
    change Matching _ _ (EStateM.bind one next first) (EStateM.bind other following second)
    change Registry.NewTo old (finalState (EStateM.bind one next first)).session.registry at isNew
    unfold EStateM.bind at isNew ⊢
    have starts := alike.matching first second twin
    cases found : one first with
    | error failure after =>
      rw [found] at isNew starts
      obtain ⟨between, same, related⟩ := (starts isNew).of_error
      rw [same]
      exact .error related
    | ok value after =>
      rw [found] at isNew starts
      have reached : ReachedFrom after.session.registry (finalState (next value after)) :=
        ((later value).grows after.session.registry).final Relation.ReflTransGen.refl
      obtain ⟨between, same, related⟩ := (starts (isNew.earlier reached)).of_ok
      rw [same]
      exact (later value).matching after between related isNew

/-- A lowering that starts by looking at the frame. -/
theorem reads {next following : Workbench → Lower α}
    (same : ∀ first second : Workbench, first.frame = second.frame → next first = next second)
    (alike : ∀ bench, Alike old (next bench) (following bench)) :
    Alike old (get >>= next) (get >>= following) where
  grows start := .bind .get fun bench => (alike bench).grows start
  matching first second twin isNew := by
    change Registry.NewTo old (finalState (next first first)).session.registry at isNew
    change Matching _ _ (next first first) (following second second)
    rw [same first second twin.frame] at isNew ⊢
    exact (alike second).matching first second twin isNew

theorem fail (line : Nat) (error : LowerError) :
    Alike old (Lower.fail line error : Lower α) (Lower.fail line error) :=
  reads (fun _ _ same => by rw [same]) fun _ => .throw _

theorem guard {condition : Prop} [Decidable condition] {line : Nat} {error : LowerError}
    {one other : Lower α} (alike : Alike old one other) :
    Alike old
      (do
        if condition then Lower.fail line error
        one)
      (do
        if condition then Lower.fail line error
        other) := by
  split
  · exact .bind (fail line error) fun _ => alike
  · exact alike

/-- A quiet change that depends on the frame only. -/
theorem modify {change : Workbench → Workbench} (quiet : ∀ bench, Quiet bench (change bench))
    (same : ∀ first second : Workbench, first.frame = second.frame →
      (change first).frame = (change second).frame) :
    Alike old (modify change : Lower Unit) (modify change) where
  grows start := Stable.calm.modify quiet
  matching first second twin _ := by
    refine .ok ⟨same first second twin.frame, ?_, ?_, ?_⟩
    · have changed := quiet first
      have other := quiet second
      constructor
      · rw [other.files, changed.files, twin.session.files]
      · rw [other.searchPaths, changed.searchPaths, twin.session.searchPaths]
      · rw [other.registry, changed.registry]
        exact twin.session.overlays
    · rw [(quiet first).registry, (quiet first).id]
      exact twin.own
    · rw [(quiet first).registry, (quiet first).id, (quiet first).dependencies]
      exact twin.aliases

theorem modifyModule {change : Module → Module} (sameId : ∀ module, (change module).id = module.id)
    (sameFile : ∀ module, (change module).file = module.file)
    (sameRuntime : ∀ module, (change module).runtime = module.runtime)
    (sameDependencies : ∀ module, (change module).dependencies = module.dependencies) :
    Alike old (Lower.modifyModule change) (Lower.modifyModule change) :=
  modify (fun bench => ⟨rfl, rfl, rfl, sameId _, sameFile _, sameRuntime _, sameDependencies _,
    .refl _⟩)
    fun _ _ same => by rw [same]

/-- A lowering that looks up only names that the old registry does not know. -/
theorem of_consults {computation : Lower α} (consults : Consults (Registry.Clear old) computation) :
    Alike old computation computation := by
  induction consults with
  | pure value => exact .pure value
  | bind _ _ first next => exact .bind first next
  | fail line error => exact .fail line error
  | ask answer =>
    cases answer with
    | ok value => exact .pure value
    | error failure => exact .throw failure
  | @looks β next same _ alike =>
    refine ⟨fun start => .bind .get fun bench => (alike bench).grows start, ?_⟩
    intro first second twin isNew
    change Matching _ _ (next first first) (next second second)
    rw [← same first second twin.frame fun name clear => twin.session.overlays.agreeOn clear]
    exact (alike first).matching first second twin isNew
  | emit emission =>
    refine ⟨fun start => Stable.calm.placid.framed (.emit emission), ?_⟩
    intro first second twin _
    unfold Lower.emit
    rw [← twin.frame]
    exact .ok ⟨rfl, twin.session, twin.own, twin.aliases⟩
  | recordFresh address type =>
    refine .bind (.modify (fun _ => still_frame.toQuiet) fun _ _ same => ?_) fun _ => .pure _
    rw [same]

theorem of_framed {computation : Lower α} (framed : Framed (Registry.Clear old) computation) :
    Alike old computation computation := by
  induction framed with
  | consults consults => exact of_consults consults
  | bind _ _ first next => exact .bind first next
  | looks same _ next => exact .reads same next
  | modify still same => exact .modify (fun bench => (still bench).toQuiet) same

/-! ## Statements -/

theorem entityDefinition {definition : EntityDefinition}
    (known : ∀ field ∈ definition.fields, field.2.Consults (Registry.Clear old)) :
    Alike old (Lowering.entityDefinition definition) (Lowering.entityDefinition definition) := by
  refine .bind (of_consults .inFunctionBody) fun nested => .guard ?_
  refine .bind (modifyModule (fun _ => rfl) (fun _ => rfl) (fun _ => rfl) fun _ => rfl) fun _ => ?_
  refine .bind (of_consults (.resolveFields _ _ known)) fun fields => ?_
  refine .bind (of_consults .currentModule) fun module => ?_
  refine .bind (modifyModule (fun _ => rfl) (fun _ => rfl) (fun _ => rfl) fun _ => rfl) fun _ => ?_
  exact of_framed (.bind (.emit _) fun _ => .trace _)

/-- What mentions no names of the old registry does not see it, as long as inclusions do not. -/
theorem of_follows {compileIncluded other : Includer} {one another : Lower α}
    (follows : Follows (Registry.Clear old) compileIncluded other one another)
    (included : ∀ written,
      Alike old (inclusion compileIncluded written) (inclusion other written)) :
    Alike old one another := by
  induction follows with
  | framed framed => exact of_framed framed
  | bind _ _ first next => exact .bind first next
  | entity known => exact entityDefinition known
  | inclusion _ => exact included _

/-- Looking the code through sees nothing of the registry. -/
theorem checked {one other : Lower Unit} (alike : Alike old one other) :
    Alike old (Compile.checked one) (Compile.checked other) where
  grows start := (checked_agrees Stable.calm (.refl (alike.grows start))).preserves
  matching first second twin isNew := by
    unfold Compile.checked at isNew ⊢
    rw [finalState_examined] at isNew
    have matching := alike.matching first second twin isNew
    generalize one first = result at matching
    generalize other second = another at matching
    cases matching with
    | @ok _ after final related =>
      unfold examined
      dsimp only
      rw [related.frame]
      cases refused : final.frame.draft.refusal? with
      | none => exact .ok related
      | some message => exact .error related.kin
    | error related =>
      unfold examined
      dsimp only
      rw [related.1]
      exact .error related

end Alike

/-! ## Reading -/

/-- Readers on twin benches look at the module from the same vantage. -/
def Workbench.Twin.vantage {old : Registry} {first second : Workbench}
    (twin : first.Twin old second)
    (isNew : Registry.NewTo old first.session.registry) : Vantage where
  names := Registry.Clear old
  file := first.frame.module.file
  module := first.frame.module
  registry := first.session.registry
  other := second.session.registry
  agree _ clear := twin.session.overlays.agreeOn clear
  canonical _ _ clear := twin.session.overlays.clear_canonical isNew.plain clear
  own kind symbol := isNew.clear twin.own kind symbol
  foreign kind localName symbol included :=
    isNew.clear (twin.aliases localName (List.contains_iff_mem.mp included)) kind symbol

end Lowering

namespace Compile

open Lowering Source

variable {old : Registry}

private theorem recorded_alike (after : Reading) :
    Alike old (Outline.recorded after) (Outline.recorded after) := by
  refine .bind (.modifyModule (fun _ => rfl) (fun _ => rfl) (fun _ => rfl) fun _ => rfl) fun _ => ?_
  refine .modify (fun bench => ?_) fun _ _ same => same
  obtain ⟨log, traced, same⟩ := traceAll_eq bench.session after.trace
  rw [same]
  exact (still_log traced).toQuiet

/-- How the text of a file is lowered on, by what was read next. -/
def proceed (compileIncluded : String → String → Nat → Lower Unit) (fuel : Nat) :
    EStateM.Result Failure Reading (Option Stmt) → Lower Unit
  | .error failure after => do
    Outline.recorded after
    throw failure
  | .ok none after => Outline.recorded after
  | .ok (some written) after => do
    Outline.recorded after
    Outline.dumped written
    checked (Lowering.statement compileIncluded written)
    statements compileIncluded fuel after

private theorem statements_succ (compileIncluded : Includer) (fuel : Nat)
    (reading : Reading) (bench : Workbench) : statements compileIncluded (fuel + 1) reading bench =
      proceed compileIncluded fuel (readNext reading bench) bench := by
  rw [statements]
  unfold readNext
  simp only [bind, EStateM.bind, get_apply]
  generalize Reading.statement _ _ = outcome
  rcases outcome with ⟨_ | written, after⟩ | ⟨failure, after⟩
  all_goals rfl

variable {first second : Workbench} {other : Includer}
  {name source : String} {waiting : List String} {fuel : Nat}

/-- What twin benches read next is the same, and it mentions no names of the old registry. -/
theorem readNext_alike (twin : first.Twin old second)
    (isNew : Registry.NewTo old first.session.registry) (reading : Reading) :
    readNext reading second = readNext reading first ∧
      ∀ stmt after, readNext reading first = .ok (some stmt) after →
        stmt.Consults (Registry.Clear old) := by
  unfold readNext
  rw [← twin.frame]
  exact Reading.statement_alike (twin.vantage isNew) _

/-- The statements of a file do not see the old registry, as long as its inclusions do not. -/
theorem statements_alike {compileIncluded : Includer}
    (included : ∀ written, Alike old (inclusion compileIncluded written) (inclusion other written))
    (fuel : Nat) (reading : Reading) (worded : reading.Worded) :
    Alike old (statements compileIncluded fuel reading) (statements other fuel reading) := by
  induction fuel generalizing reading with
  | zero => exact .throw _
  | succ fuel ih =>
    have grows : ∀ start, Preserves (ReachedFrom start) (ReachedFrom start)
        (statements compileIncluded (fuel + 1) reading) := fun start =>
      (statements_agree Stable.calm
        (fun written _ => .refl ((included written).grows start)) (fuel + 1) reading
        worded).preserves
    refine ⟨grows, fun first second twin isNew => ?_⟩
    have reached : ReachedFrom first.session.registry
        (finalState (statements compileIncluded (fuel + 1) reading first)) :=
      (grows first.session.registry).final Relation.ReflTransGen.refl
    obtain ⟨same, known⟩ := readNext_alike twin (isNew.earlier reached) reading
    rw [statements_succ] at isNew
    rw [statements_succ, statements_succ, same]
    suffices alike : Alike old (proceed compileIncluded fuel (readNext reading first))
        (proceed other fuel (readNext reading first)) from
      alike.matching first second twin isNew
    cases found : readNext reading first with
    | error failure after => exact .bind (recorded_alike after) fun _ => .throw _
    | ok found? after =>
      cases found? with
      | none => exact recorded_alike after
      | some written =>
        obtain ⟨recorded, belongs⟩ := Reading.statement_belongs (by exact worded) found
        refine .bind (recorded_alike after) fun _ => .bind ?_ fun _ => ?_
        · exact .modify (fun _ => (still_log (.dump _ _ _)).toQuiet) fun _ _ same => same
        · refine .bind (.checked (.of_follows (.statement written (known written after found)
            belongs) included)) fun _ => ?_
          exact ih after recorded.worded

def firstReading (text : String) (bench : Workbench) : EStateM.Result Failure Reading Unit :=
  let module := bench.frame.module
  Reading.start ⟨module.file, module, bench.session.registry⟩ (Token.scan text) {}

/-- How the text of a file is lowered, by how its reading starts. -/
def proceedAll (compileIncluded : String → String → Nat → Lower Unit) (text : String) :
    EStateM.Result Failure Reading Unit → Lower Unit
  | .error failure _ => throw failure
  | .ok _ reading => statements compileIncluded ((Token.scan text).tokens.length + 1) reading

private theorem body_eq (compileIncluded : Includer) (text : String) (bench : Workbench) :
    body compileIncluded text bench =
      proceedAll compileIncluded text (firstReading text bench) bench := rfl

/-- The text of a file does not see the old registry, as long as its inclusions do not. -/
theorem body_alike {compileIncluded : Includer}
    (included : ∀ written, Alike old (inclusion compileIncluded written) (inclusion other written))
    (text : String) : Alike old (body compileIncluded text) (body other text) := by
  have grows : ∀ start, Preserves (ReachedFrom start) (ReachedFrom start)
      (body compileIncluded text) := fun start =>
    body_preserves Stable.calm (fun written _ => (included written).grows start) text
  refine ⟨grows, fun first second twin isNew => ?_⟩
  have reached : ReachedFrom first.session.registry
      (finalState (body compileIncluded text first)) :=
    (grows first.session.registry).final Relation.ReflTransGen.refl
  have same : firstReading text second = firstReading text first := by
    simp only [firstReading, ← twin.frame, Reading.start, Reader.next, Reader.move_eq]
  rw [body_eq] at isNew
  rw [body_eq, body_eq, same]
  suffices alike : Alike old (proceedAll compileIncluded text (firstReading text first))
      (proceedAll other text (firstReading text first)) from
    alike.matching first second twin isNew
  cases found : firstReading text first with
  | error failure reading => exact .throw _
  | ok _ reading =>
    refine statements_alike included _ reading ?_
    exact Reading.start_worded (Token.scanLines_worded 1 text.toList) found

/-! ## Inclusions -/

/-- Ways of compiling included files that do not see the old registry, and after which the id of the
file is known. -/
structure Includes (old : Registry) (one other : String → String → Nat → Lower Unit) : Prop where
  alike : ∀ path id line, Alike old (one path id line) (other path id line)
  waits : ∀ path id line before after, one path id line before = .ok () after →
    after.frame = before.frame
  names : ∀ path id line before after, id ≠ "" → one path id line before = .ok () after →
    after.session.registry.Knows id

/-- A module has got an alias of a module that the registry knows. -/
theorem withDependency_twin {localName : String} (twin : first.Twin old second)
    (known : first.session.registry.Knows (Name.includeId first.frame.module.id localName)) :
    (withDependency first localName).Twin old (withDependency second localName) where
  frame := by
    unfold withDependency
    rw [twin.frame]
  session := twin.session
  own := twin.own
  aliases other member := by
    rcases List.mem_append.mp member with earlier | last
    · exact twin.aliases other earlier
    · rw [List.mem_singleton.mp last]
      exact known

private theorem withLog_twin (twin : first.Twin old second) (log otherLog : Log) :
    (withLog first log).Twin old (withLog second otherLog) :=
  ⟨twin.frame, ⟨twin.session.files, twin.session.searchPaths, twin.session.overlays⟩, twin.own,
    twin.aliases⟩

theorem knows_register (registry : Registry) (module : Module) :
    (registry.register module).Knows module.id :=
  .inl ⟨module, List.mem_cons_self, rfl⟩

private theorem withModule_twin {module : Module} (twin : first.Twin old second)
    (isNew : ¬old.Knows module.id) :
    (withModule first module).Twin old (withModule second module) where
  frame := twin.frame
  session :=
    ⟨twin.session.files, twin.session.searchPaths, twin.session.overlays.register module isNew⟩
  own := (Registry.Step.register module).knows twin.own
  aliases localName member := (Registry.Step.register module).knows (twin.aliases localName member)

def refusal (bench : Workbench) (line : Nat) (error : LowerError) :
    EStateM.Result Failure Workbench Unit :=
  .error (Failure.atLine .codeGeneration bench.frame.module.file line error.message) bench

private theorem refusal_matching (twin : first.Twin old second) (line : Nat) (error : LowerError) :
    Matching (Workbench.Twin old) (Workbench.Kin old) (refusal first line error)
      (refusal second line error) := by
  unfold refusal
  rw [twin.frame]
  exact .error twin.kin

private theorem inclusion_repeated (compileIncluded : Includer)
    {written : Include} {bench : Workbench}
    (repeated : written.id ∈ bench.frame.module.dependencies) :
    inclusion compileIncluded written bench =
      refusal bench written.line (.repeatedAlias written.id) := by
  have known : bench.frame.module.hasDependency written.id = true :=
    List.contains_iff_mem.mpr repeated
  rw [inclusion]
  simp only [bind, EStateM.bind, Lower.currentModule, get_apply, pure, EStateM.pure,
    known, if_true]
  rfl

theorem inclusion_runtime (compileIncluded : Includer)
    {written : Include} {bench : Workbench} (target : written.target = .runtime name)
    (unused : written.id ∉ bench.frame.module.dependencies) :
    inclusion compileIncluded written bench = if Catalogue.hasModule name then
        .ok () (withDependency (withModule bench
          (Module.ofRuntime (Name.includeId bench.frame.module.id written.id) name)) written.id)
      else refusal bench written.line (.unknownRuntime name) := by
  have first : bench.frame.module.hasDependency written.id = false := by
    simpa [Module.hasDependency] using unused
  rw [inclusion]
  simp only [bind, EStateM.bind, Lower.currentModule, get_apply, pure, EStateM.pure,
    first, target]
  cases Catalogue.hasModule name <;> rfl

/-- An include statement does not see the old registry, as long as the compilation of the included
file does not. -/
theorem inclusion_alike {one : Includer} (includes : Includes old one other) (written : Include) :
    Alike old (inclusion one written) (inclusion other written) := by
  refine ⟨fun start => (reaches_stable start).inclusion fun path id line =>
    (includes.alike path id line).grows start, fun first second twin isNew => ?_⟩
  by_cases repeated : written.id ∈ first.frame.module.dependencies
  · rw [inclusion_repeated one repeated, inclusion_repeated other (twin.frame ▸ repeated)]
    exact refusal_matching twin _ _
  have unused : written.id ∉ second.frame.module.dependencies := twin.frame ▸ repeated
  cases target : written.target with
  | runtime name =>
    rw [inclusion_runtime one target repeated] at isNew ⊢
    rw [inclusion_runtime other target unused]
    split
    · rename_i known
      rw [if_pos known] at isNew
      have registered := knows_register first.session.registry
        (Module.ofRuntime (Name.includeId first.frame.module.id written.id) name)
      rw [← twin.frame]
      exact .ok (withDependency_twin (withModule_twin twin (isNew.new _ registered)) registered)
    · exact refusal_matching twin _ _
  | file path =>
    rw [inclusion_file target repeated] at isNew ⊢
    rw [inclusion_file target unused]
    have located : second.session.locateInclude first.frame.module.file path =
        first.session.locateInclude first.frame.module.file path := by
      unfold Session.locateInclude
      rw [twin.session.files, twin.session.searchPaths]
    simp only [Call.answer, Call.of, ← twin.frame, located] at isNew ⊢
    generalize first.session.locateInclude first.frame.module.file path = included at isNew ⊢
    generalize first.session.log.trace _ = log at isNew ⊢
    generalize second.session.log.trace _ = otherLog
    have matching := (includes.alike included (Name.includeId first.frame.module.id written.id)
      written.line).matching _ _ (withLog_twin twin log otherLog)
    generalize compiled : one _ _ written.line _ = outcome at isNew matching ⊢
    cases outcome with
    | error failure after =>
      obtain ⟨final, same, related⟩ := (matching isNew).of_error
      rw [same]
      exact .error related
    | ok _ after =>
      have waited := includes.waits _ _ _ _ _ compiled
      have known := includes.names _ _ _ _ _ (includeId_ne_empty _ _) compiled
      obtain ⟨final, same, related⟩ := (matching isNew).of_ok
      rw [same]
      refine .ok (withLog_twin (withDependency_twin related ?_) _ _)
      rw [waited]
      exact known

/-! ## Files -/

theorem knows_bound (session : Session) (source id : String) :
    (bound session source id).registry.Knows id :=
  .inr (.inr ⟨source, idOfFile?_bound session source id⟩)

theorem knows_marked {registry marked : Registry} {id other : String}
    (isMarked : registry.addDuplicate? id other = some marked) : marked.Knows id := by
  obtain ⟨target, -, rfl⟩ := Option.map_eq_some_iff.mp isMarked
  exact .inr (.inl (by simp [Table.contains]))

theorem lowering_grows (waiting : List String) (fuel : Nat) (source id : String)
    (content : ByteArray) (bench : Workbench) : Registry.Reaches bench.session.registry
      (finalState (lowering waiting fuel source id content bench)).session.registry :=
  have stable := reaches_stable bench.session.registry
  (stable.lowering (fun _ _ _ _ => stable.file _ _ _ _ _) waiting source id content).final .refl

theorem file_knows {includedAt : Location} {path id value : String} {session after : Session}
    (compiled : file waiting includedAt fuel path id session = .ok value after) :
    after.registry.Knows (effectiveId (session.files.absolute path) id) := by
  cases fuel with
  | zero => cases compiled
  | succ fuel =>
    have outcome := file_outcome waiting includedAt fuel path id session
    rw [compiled] at outcome
    generalize session.files.absolute path = source at outcome ⊢
    generalize effectiveId source id = name at outcome ⊢
    cases outcome with
    | duplicate _ _ marked => exact knows_marked marked
    | @compiled content bench log _ _ lowered =>
      have grown := lowering_grows waiting fuel source value content
        ⟨bound session source value, Frame.initial value source⟩
      rw [lowered] at grown
      exact (Registry.Step.register _).knows (grown.knows (knows_bound session source value))

/-- Files are compiled alike in sessions that differ by an old registry, as long as what is added to
the registry is new to the old one. -/
def FilesAlike (old : Registry) (waiting : List String) (fuel : Nat) : Prop :=
  ∀ includedAt path id first second, Session.Twin old first second →
    Registry.NewTo old (finalState (file waiting includedAt fuel path id first)).registry →
    Matching (Session.Twin old) (Session.Twin old) (file waiting includedAt fuel path id first)
      (file waiting includedAt fuel path id second)

/-- The compilation of included files does not see the old registry, as long as the compilation of
files does not. -/
theorem includer_includes (source id : String) (compiles : FilesAlike old (id :: waiting) fuel) :
    Includes old (includer waiting source id fuel) (includer waiting source id fuel) where
  alike path includedId line := by
    refine ⟨fun start => .bind (whileWaiting_leads ((reaches_stable start).file _ _ _ _ _)) fun _ =>
      .pure _,
      fun first second twin isNew => ?_⟩
    rw [includer_eq] at isNew
    rw [includer_eq, includer_eq]
    have matching := compiles (Location.ofLine source line) path includedId _ _ twin.session
    have reached := file_reaches (id :: waiting) (Location.ofLine source line) fuel path includedId
      first.session
    cases compiled : file (id :: waiting) (Location.ofLine source line) fuel path includedId
        first.session with
    | error failure after =>
      rw [compiled] at isNew matching
      obtain ⟨final, same, related⟩ := (matching isNew).of_error
      rw [same]
      exact .error ⟨twin.frame, related⟩
    | ok value after =>
      rw [compiled] at isNew matching reached
      obtain ⟨final, same, related⟩ := (matching isNew).of_ok
      rw [same]
      exact .ok ⟨twin.frame, related, reached.knows twin.own, fun localName member =>
        reached.knows (twin.aliases localName member)⟩
  waits path includedId line before after compiled := by
    obtain ⟨_, _, _, rfl⟩ := includer_eq_ok compiled
    rfl
  names path includedId line before after nonempty compiled := by
    obtain ⟨_, _, outcome, rfl⟩ := includer_eq_ok compiled
    have known := file_knows outcome
    rwa [effectiveId, if_neg nonempty] at known

theorem duplicate_alike {first second : Session} {bound : String} (twin : first.Twin old second)
    (isBound : first.registry.idOfFile? source = some bound)
    (isNew : ∀ marked, first.registry.addDuplicate? name bound = some marked → ¬old.Knows name) :
    first.registry.addDuplicate? name bound = none ∧
        second.registry.addDuplicate? name bound = none ∨
      ∃ marked stacked, first.registry.addDuplicate? name bound = some marked ∧
        second.registry.addDuplicate? name bound = some stacked ∧
        Registry.Overlays old marked stacked := by
  cases found : first.registry.addDuplicate? name bound with
  | some marked =>
    have marks := twin.overlays.addDuplicate? isBound (isNew marked found)
    rwa [found] at marks
  | none =>
    have known : first.registry.Knows bound := .inr (.inr ⟨source, isBound⟩)
    have endless := Option.map_eq_none_iff.mp found
    rw [← twin.overlays.representative?_eq (twin.overlays.apart bound known)] at endless
    exact .inl ⟨rfl, Option.map_eq_none_iff.mpr endless⟩

theorem bound_twin {first second : Session} (twin : first.Twin old second)
    (unbound : first.registry.idOfFile? source = none)
    (isNew : Registry.NewTo old (bound first source name).registry) :
    second.registry.idOfFile? source = none ∧
      Workbench.Twin old ⟨bound first source name, Frame.initial name source⟩
        ⟨bound second source name, Frame.initial name source⟩ := by
  have oldUnbound := isNew.unbound source name (idOfFile?_bound first source name)
  have known := knows_bound first source name
  refine ⟨?_, rfl, ?_, known, nofun⟩
  · rw [twin.overlays.idOfFile?_eq oldUnbound]
    exact unbound
  · exact ⟨twin.files, twin.searchPaths, twin.overlays.recordFile unbound (isNew.new name known)⟩

/-- The text of a new file is lowered alike, as long as the files that it includes are. -/
theorem lowering_alike {first second : Session} (content : ByteArray)
    (twin : first.Twin old second) (unbound : first.registry.idOfFile? source = none)
    (compiles : FilesAlike old (name :: waiting) fuel)
    (isNew : Registry.NewTo old (finalState (lowering waiting fuel source name content
      ⟨bound first source name, Frame.initial name source⟩)).session.registry) :
    second.registry.idOfFile? source = none ∧
      Matching (Workbench.Twin old) (Workbench.Kin old)
        (lowering waiting fuel source name content
          ⟨bound first source name, Frame.initial name source⟩)
        (lowering waiting fuel source name content
          ⟨bound second source name, Frame.initial name source⟩) := by
  have grown := lowering_grows waiting fuel source name content
    ⟨bound first source name, Frame.initial name source⟩
  obtain ⟨unboundToo, begun⟩ := bound_twin twin unbound (isNew.earlier grown)
  have includes := includer_includes source name compiles
  have alike := body_alike (inclusion_alike includes) (Text.decode content)
  exact ⟨unboundToo, alike.matching _ _ begun isNew⟩

theorem file_alike (fuel : Nat) (waiting : List String) : FilesAlike old waiting fuel := by
  intro includedAt path id first second twin isNew
  induction fuel generalizing waiting includedAt path id first second with
  | zero => exact .error twin
  | succ fuel ih =>
    have reached := file_reaches waiting includedAt (fuel + 1) path id first
    have wasNew := isNew.earlier reached
    rw [file_eq] at isNew
    rw [file_eq, file_eq, twin.files]
    generalize first.files.absolute path = source at isNew ⊢
    generalize effectiveId source id = name at isNew ⊢
    unfold conclusion at isNew ⊢
    rw [twin.files]
    cases readable : first.files.stat source with
    | error cause => exact .error twin
    | ok node =>
    cases node with
    | directory => exact .error twin
    | file content =>
    simp only [readable] at isNew ⊢
    cases isBound : first.registry.idOfFile? source with
    | some other =>
      have same := twin.overlays.idOfFile?_eq (wasNew.unbound source other isBound)
      rw [isBound] at same
      simp only [isBound, same] at isNew ⊢
      split
      · exact .error twin
      rename_i absent
      rw [if_neg absent] at isNew
      have marks := duplicate_alike twin isBound fun marked found => by
        rw [found] at isNew
        exact isNew.new name (knows_marked found)
      obtain ⟨endless, endlessToo⟩ | ⟨marked, stacked, found, foundToo, overlays⟩ := marks
      · simp only [endless, endlessToo]
        exact .error twin
      · simp only [found, foundToo]
        exact .ok ⟨rfl, twin.searchPaths, overlays⟩
    | none =>
      simp only [isBound] at isNew ⊢
      cases content with
      | none =>
        obtain ⟨unbound, begun⟩ := bound_twin twin isBound isNew
        simp only [unbound]
        exact .error begun.session
      | some content =>
      dsimp only at isNew ⊢
      have lowers := lowering_alike content twin isBound (ih (name :: waiting))
      cases lowered : lowering waiting fuel source name content
          ⟨bound first source name, Frame.initial name source⟩ with
      | error failure bench =>
        rw [lowered] at isNew lowers
        obtain ⟨unbound, matching⟩ := lowers isNew
        obtain ⟨final, same, related⟩ := matching.of_error
        simp only [unbound, same]
        exact .error related.2
      | ok value bench =>
        rw [lowered] at isNew lowers
        obtain ⟨unbound, matching⟩ := lowers
          (isNew.earlier (Relation.ReflTransGen.single (.register _)))
        obtain ⟨final, same, related⟩ := matching.of_ok
        simp only [unbound, same, ← related.frame]
        refine .ok ⟨related.session.files, related.session.searchPaths, ?_⟩
        exact related.session.overlays.register _ (isNew.new _ (knows_register _ _))

end Compile

namespace Session

open Compile

/-- What a computation gives, whatever it leaves. -/
def answer {ε σ α : Type} : EStateM.Result ε σ α → Except ε α
  | .ok value _ => .ok value
  | .error failure _ => .error failure

/-- A session without a registry, beside one that has compiled before. -/
theorem Twin.fresh {session fresh : Session} (isEmpty : fresh.registry = {})
    (sameFiles : fresh.files = session.files)
    (samePaths : fresh.searchPaths = session.searchPaths) :
    fresh.Twin session.registry session where
  files := sameFiles.symm
  searchPaths := samePaths.symm
  overlays := by
    rw [isEmpty]
    exact .empty session.registry

/-- An entry file whose text and included texts were not compiled before in a session, and whose
compilation gives ids that are new there and can be read back from names, is compiled as in a new
session: with the same answer and to the same modules, which stand before the old ones. -/
theorem compileEntry_independent (session fresh : Session) (path id : String)
    (isEmpty : fresh.registry = {}) (sameFiles : fresh.files = session.files)
    (samePaths : fresh.searchPaths = session.searchPaths)
    (unbound : ∀ source ∈ sources .opened (visits [] (fresh.files.files.length + 1) path id fresh),
      session.registry.idOfFile? source = none)
    (isNew : ∀ name, (finalState (compileEntry path id fresh)).registry.Knows name →
      Name.IsPlain name ∧ ¬session.registry.Knows name) :
    let alone := (finalState (compileEntry path id fresh)).registry
    let after := (finalState (compileEntry path id session)).registry
    answer (compileEntry path id session) = answer (compileEntry path id fresh) ∧
      after.registrations = alone.registrations ++ session.registry.registrations ∧
      (∀ name, alone.Knows name → after.module? name = alone.module? name) ∧
      ∀ source name, alone.idOfFile? source = some name → after.idOfFile? source = some name := by
  have sameFuel : session.files.files.length = fresh.files.files.length := by rw [sameFiles]
  rw [compileEntry_eq] at isNew
  simp only [compileEntry_eq, sameFuel]
  have binds := visits_bind (fresh.files.files.length + 1) [] {} path id fresh
  have newTo : session.registry.NewTo
      (finalState (file [] {} (fresh.files.files.length + 1) path id fresh)).registry := by
    refine ⟨fun name known => (isNew name known).1, fun name known => (isNew name known).2, ?_⟩
    intro source name isBound
    rcases binds.noOthers source name isBound with member | before
    · exact unbound source member
    · rw [places, isEmpty] at before
      cases before
  have matching := file_alike (fresh.files.files.length + 1) [] {} path id fresh session
    (.fresh isEmpty sameFiles samePaths) newTo
  have overlays : session.registry.Overlays
      (finalState (file [] {} (fresh.files.files.length + 1) path id fresh)).registry
      (finalState (file [] {} (fresh.files.files.length + 1) path id session)).registry := by
    generalize file [] {} _ path id fresh = alone at matching
    generalize file [] {} _ path id session = after at matching
    cases matching with
    | ok twin => exact twin.overlays
    | error twin => exact twin.overlays
  refine ⟨?_, overlays.registrations, fun name known => overlays.module?_eq (newTo.new name known),
    fun source name isBound => ?_⟩
  · generalize file [] {} _ path id fresh = alone at matching
    generalize file [] {} _ path id session = after at matching
    cases matching <;> rfl
  · rw [overlays.idOfFile?_eq (newTo.unbound source name isBound)]
    exact isBound

/-- Every known id stands in one of the tables. -/
theorem mem_of_knows {registry : Registry} {id : String} (known : registry.Knows id) :
    id ∈ registry.registrations.map Module.id ++ registry.duplicates.entries.map Prod.fst ++
      registry.files.entries.map Prod.snd := by
  rcases known with ⟨module, member, rfl⟩ | isDuplicate | ⟨path, isBound⟩
  · exact List.mem_append_left _ (List.mem_append_left _ (List.mem_map_of_mem member))
  · obtain ⟨target, marked⟩ := Option.isSome_iff_exists.mp isDuplicate
    obtain ⟨before, after, split, -⟩ := List.lookup_eq_some_iff.mp marked
    simp [split]
  · obtain ⟨before, after, split, -⟩ := List.lookup_eq_some_iff.mp isBound
    simp [split]

/-- A session with an empty file, `/k.krk`, and one that includes it, `/n.krk`. -/
def includingOther : Session where
  files := { nodes := ⟨[("/k.krk", .file (some ⟨#[]⟩)),
    ("/n.krk", .file (some ⟨#[105, 110, 99, 108, 117, 32, 107]⟩))]⟩ }

def includingOtherLater : Session :=
  { includingOther with registry :=
      { registrations := [{ id := "m", file := "/m.krk" }], files := ⟨[("/m.krk", "m")]⟩ } }

theorem includingOther_fuel : includingOther.files.files.length + 1 = 3 :=
  congrArg (· + 1) ((List.mergeSort_perm includingOther.files.nodes.entries _).filterMap
    _).length_eq

private theorem includingOther_ids :
    (finalState (file [] {} 3 "n.krk" "" includingOther)).registry.registrations.map Module.id =
      ["n", "n_k"] := by
  decide +kernel

theorem includingOther_knows {name : String}
    (known : (finalState (compileEntry "n.krk" "" includingOther)).registry.Knows name) :
    name = "n" ∨ name = "n_k" := by
  rw [compileEntry_eq, includingOther_fuel] at known
  have member := mem_of_knows known
  have noDuplicates : (finalState (file [] {} 3 "n.krk" ""
      includingOther)).registry.duplicates.entries = [] := by decide +kernel
  have files : (finalState (file [] {} 3 "n.krk" "" includingOther)).registry.files.entries =
      [("/n.krk", "n"), ("/k.krk", "n_k")] := by decide +kernel
  rw [includingOther_ids, noDuplicates, files] at member
  simp only [List.map_nil, List.append_nil, List.map_cons, List.mem_append, List.mem_cons,
    List.not_mem_nil, or_false] at member
  exact or_self_iff.mp member

private theorem includingOtherLater_knows {name : String}
    (known : includingOtherLater.registry.Knows name) : name = "m" := by
  have member := mem_of_knows known
  simpa [includingOtherLater] using member

/-- The file and the one that it includes are compiled as in the new session. -/
theorem includingOther_independent :
    answer (compileEntry "n.krk" "" includingOtherLater) =
        answer (compileEntry "n.krk" "" includingOther) ∧
      (finalState (compileEntry "n.krk" "" includingOtherLater)).registry.module? "n_k" =
        (finalState (compileEntry "n.krk" "" includingOther)).registry.module? "n_k" := by
  have texts :
      sources .opened (visits [] 3 "n.krk" "" includingOther) = ["/n.krk", "/k.krk"] := by
    decide +kernel
  have isNew : ∀ name, (finalState (compileEntry "n.krk" "" includingOther)).registry.Knows name →
      Name.IsPlain name ∧ ¬includingOtherLater.registry.Knows name := by
    intro name known
    rcases includingOther_knows known with rfl | rfl
    · exact ⟨⟨⟨'n', rfl, rfl⟩, by decide⟩, fun old => nomatch includingOtherLater_knows old⟩
    · exact ⟨⟨⟨'n', rfl, rfl⟩, by decide⟩, fun old => nomatch includingOtherLater_knows old⟩
  obtain ⟨same, -, modules, -⟩ := compileEntry_independent includingOtherLater includingOther
    "n.krk" "" rfl rfl rfl (by rw [includingOther_fuel, texts]; decide) isNew
  refine ⟨same, modules "n_k" ?_⟩
  rw [compileEntry_eq, includingOther_fuel]
  have member : "n_k" ∈ ["n", "n_k"] := by decide
  rw [← includingOther_ids] at member
  obtain ⟨module, registered, named⟩ := List.mem_map.mp member
  exact .inl ⟨module, registered, named⟩

end Session

end Kronk
