import Kronk.Proofs.Duplicates
import Kronk.Proofs.Visits

/-!
# Bound files and their modules

A file is bound to its id before it is read.  If its compilation fails, the binding stays and no
module is ever registered for the file; a later compilation then takes the file for compiled.
-/

namespace Kronk

variable {waiting : List String} {content : Option ByteArray}

namespace Registry

/-- Looking up an id ends and finds the module of a file. -/
def Finds (registry : Registry) (id source : String) : Prop :=
  ∃ root module, registry.representative? id = some root ∧
    registry.registered? root = some module ∧ module.file = source

/-- Bound files have names, and a module is registered for the file that is bound to its id; the
modules of the runtime have no file. -/
structure Settled (registry : Registry) : Prop where
  named : ∀ path id, registry.idOfFile? path = some id → path ≠ ""
  modules : ∀ module ∈ registry.registrations,
    module.file = "" ∨ registry.idOfFile? module.file = some module.id

/-- What a compilation adds: bindings are kept, modules are registered only for files that were not
bound before, and only ids of at least a given length become duplicates. -/
structure Adds (shortest : Nat) (before after : Registry) : Prop where
  files : ∀ path id, before.idOfFile? path = some id → after.idOfFile? path = some id
  named : ∀ path id, after.idOfFile? path = some id →
    before.idOfFile? path = some id ∨ path ≠ ""
  modules : ∀ module ∈ after.registrations, module ∈ before.registrations ∨ module.file = "" ∨
    before.idOfFile? module.file = none ∧ after.idOfFile? module.file = some module.id
  duplicates : ∀ id, id.length < shortest → after.duplicates.get? id = before.duplicates.get? id

namespace Adds

variable {shortest : Nat} {before between after : Registry}

theorem refl (shortest : Nat) (registry : Registry) : Adds shortest registry registry where
  files _ _ isBound := isBound
  named _ _ isBound := .inl isBound
  modules _ member := .inl member
  duplicates _ _ := rfl

theorem trans (first : Adds shortest before between) (second : Adds shortest between after) :
    Adds shortest before after where
  files path id isBound := second.files path id (first.files path id isBound)
  named path id isBound := by
    rcases second.named path id isBound with earlier | nonempty
    · exact first.named path id earlier
    · exact .inr nonempty
  modules module member := by
    rcases second.modules module member with earlier | noFile | ⟨unbound, isBound⟩
    · rcases first.modules module earlier with old | noFile | ⟨unbound, isBound⟩
      · exact .inl old
      · exact .inr (.inl noFile)
      · exact .inr (.inr ⟨unbound, second.files _ _ isBound⟩)
    · exact .inr (.inl noFile)
    · have unboundBefore : before.idOfFile? module.file = none := by
        cases found : before.idOfFile? module.file with
        | none => rfl
        | some id => simp [first.files _ _ found] at unbound
      exact .inr (.inr ⟨unboundBefore, isBound⟩)
  duplicates id short := (second.duplicates id short).trans (first.duplicates id short)

theorem weaken {longer : Nat} (adds : Adds longer before after) (shorter : shortest ≤ longer) :
    Adds shortest before after where
  files := adds.files
  named := adds.named
  modules := adds.modules
  duplicates id short := adds.duplicates id (Nat.lt_of_lt_of_le short shorter)

theorem runtime (shortest : Nat) (registry : Registry) (id name : String) :
    Adds shortest registry (registry.register (Module.ofRuntime id name)) where
  files _ _ isBound := isBound
  named _ _ isBound := .inl isBound
  modules module member := by
    rcases List.mem_cons.mp member with rfl | old
    · exact .inr (.inl rfl)
    · exact .inl old
  duplicates _ _ := rfl

theorem duplicate {id first : String} {marked : Registry}
    (found : before.addDuplicate? id first = some marked) : Adds id.length before marked := by
  obtain ⟨target, -, rfl⟩ := Option.map_eq_some_iff.mp found
  constructor
  · intro _ _ isBound
    exact isBound
  · intro _ _ isBound
    exact .inl isBound
  · intro _ member
    exact .inl member
  · intro other short
    have different : other ≠ id := by
      rintro rfl
      exact Nat.lt_irrefl _ short
    simp [different]

theorem record {source : String} (shortest : Nat) (id : String)
    (unbound : before.idOfFile? source = none)
    (nonempty : source ≠ "") : Adds shortest before (before.recordFile source id) := by
  have bindings : ∀ path, (before.recordFile source id).idOfFile? path =
      if path = source then some id else before.idOfFile? path := fun path =>
    Table.get?_insert before.files source path id
  constructor
  · intro path other isBound
    have different : path ≠ source := by
      rintro rfl
      simp [unbound] at isBound
    rw [bindings, if_neg different]
    exact isBound
  · intro path other isBound
    rw [bindings] at isBound
    split at isBound
    · rename_i same
      exact .inr (same ▸ nonempty)
    · exact .inl isBound
  · intro _ member
    exact .inl member
  · intro _ _
    rfl

theorem register {module : Module} (adds : Adds shortest before after)
    (unbound : before.idOfFile? module.file = none)
    (isBound : after.idOfFile? module.file = some module.id) :
    Adds shortest before (after.register module) where
  files := adds.files
  named := adds.named
  modules other member := by
    rcases List.mem_cons.mp member with rfl | old
    · exact .inr (.inr ⟨unbound, isBound⟩)
    · exact adds.modules other old
  duplicates := adds.duplicates

theorem settled (adds : Adds shortest before after) (settled : before.Settled) : after.Settled where
  named path id isBound := by
    rcases adds.named path id isBound with earlier | nonempty
    · exact settled.named path id earlier
    · exact nonempty
  modules module member := by
    rcases adds.modules module member with old | noFile | ⟨-, isBound⟩
    · rcases settled.modules module old with noFile | isBound
      · exact .inl noFile
      · exact .inr (adds.files _ _ isBound)
    · exact .inl noFile
    · exact .inr isBound

end Adds

end Registry

/-- What a compilation does to a session: it adds to the registry and leaves the files alone. -/
structure Session.Grown (shortest : Nat) (before after : Session) : Prop where
  registry : before.registry.Adds shortest after.registry
  files : after.files = before.files

namespace Session.Grown

variable {shortest : Nat} {before between after : Session}

theorem refl (shortest : Nat) (session : Session) : Grown shortest session session :=
  ⟨.refl _ _, rfl⟩

theorem trans (first : Grown shortest before between) (second : Grown shortest between after) :
    Grown shortest before after :=
  ⟨first.registry.trans second.registry, second.files.trans first.files⟩

theorem weaken {longer : Nat} (grown : Grown longer before after) (shorter : shortest ≤ longer) :
    Grown shortest before after :=
  ⟨grown.registry.weaken shorter, grown.files⟩

end Session.Grown

namespace Compile

open Lowering Registry Session

/-- A lowering of the file `source` under `id`, which so far did to the session what it may. -/
structure Adding (source id : String) (start : Session) (bench : Workbench) : Prop where
  grown : Grown (id.length + 1) start bench.session
  sameId : bench.frame.module.id = id
  sameFile : bench.frame.module.file = source

variable {source id : String} {start session : Session} {fuel : Nat}

/-- What a lowering did to the session does not depend on the log. -/
theorem Adding.otherLog {frame : Frame} {log : Log}
    (adding : Adding source id start ⟨{ session with log }, frame⟩) (other : Log) :
    Adding source id start ⟨{ session with log := other }, frame⟩ :=
  ⟨⟨adding.grown.registry, adding.grown.files⟩, adding.sameId, adding.sameFile⟩

/-- What is left of a lowering that failed. -/
def Added (id : String) (start : Session) (bench : Workbench) : Prop :=
  Grown (id.length + 1) start bench.session

theorem adding_calm (source id : String) (start : Session) :
    Calm (Adding source id start) (Added id start) where
  quiet before after quiet adding := by
    have registry : after.session.registry = before.session.registry := quiet.registry
    have files : after.session.files = before.session.files := quiet.files
    constructor
    · exact ⟨registry ▸ adding.grown.registry, files.trans adding.grown.files⟩
    · exact quiet.id.trans adding.sameId
    · exact quiet.file.trans adding.sameFile
  breaks _ adding := adding.grown

private theorem length_includeId (id localName : String) :
    id.length + 1 ≤ (Name.includeId id localName).length := by
  simp only [Name.includeId, String.length_append]
  have underscore : "_".length = 1 := rfl
  omega

theorem source_nonempty {files : FileTree} {node : FileNode}
    (found : files.stat source = .ok node) : source ≠ "" := by
  rintro rfl
  cases found

theorem adding_start (session : Session) (source id : String) :
    Adding source id (bound session source id) ⟨bound session source id, Frame.initial id source⟩ :=
  ⟨.refl _ _, rfl, rfl⟩

section

variable (compiles : ∀ waiting includedAt path id session, id ≠ "" →
  Grown id.length session (finalState (file waiting includedAt fuel path id session)))

include compiles

theorem inclusion_adds (written : Source.Include) :
    Preserves (Adding source id start) (Added id start)
      (inclusion (includer waiting source id fuel) written) := by
  intro bench adding
  have comes := inclusion_cases (includer waiting source id fuel) written bench
  generalize inclusion (includer waiting source id fuel) written bench = result at comes ⊢
  have named := adding.sameId
  subst named
  have longer := length_includeId bench.frame.module.id written.id
  have nonempty := includeId_ne_empty bench.frame.module.id written.id
  cases comes with
  | refused => exact adding.grown
  | runtime _ _ _ =>
    refine ⟨⟨?_, adding.grown.files⟩, rfl, adding.sameFile⟩
    exact adding.grown.registry.trans (Adds.runtime _ bench.session.registry _ _)
  | @failed path log failure after _ compiled =>
    have below := compiles (bench.frame.module.id :: waiting)
      (Location.ofLine source written.line) path _ (withLog bench log).session nonempty
    rw [includer_eq] at compiled
    split at compiled
    · cases compiled
    · rename_i ended
      cases compiled
      rw [ended] at below
      have traced : Grown (bench.frame.module.id.length + 1) start (withLog bench log).session :=
        ⟨adding.grown.registry, adding.grown.files⟩
      exact traced.trans (below.weaken longer)
  | @included path log later after _ compiled =>
    have below := compiles (bench.frame.module.id :: waiting)
      (Location.ofLine source written.line) path _ (withLog bench log).session nonempty
    obtain ⟨_, _, ended, rfl⟩ := includer_eq_ok compiled
    rw [ended] at below
    have traced : Grown (bench.frame.module.id.length + 1) start (withLog bench log).session :=
      ⟨adding.grown.registry, adding.grown.files⟩
    have grown := traced.trans (below.weaken longer)
    exact ⟨⟨grown.registry, grown.files⟩, rfl, adding.sameFile⟩

private theorem lowering_adds (waiting : List String) (content : ByteArray) :
    Preserves (Adding source id start) (Added id start) (lowering waiting fuel source id content) :=
  body_preserves (adding_calm source id start) (fun written _ => inclusion_adds compiles written) _

/-- Lowering a file is seen from the session in which the file is bound. -/
theorem lowering_from_bound {content : ByteArray} {result : EStateM.Result Failure Workbench Unit}
    (lowered : lowering waiting fuel source id content
      ⟨bound session source id, Frame.initial id source⟩ = result) :
    match result with
    | .ok _ bench => Adding source id (bound session source id) bench
    | .error _ bench => Added id (bound session source id) bench := by
  have outcome := lowering_adds compiles waiting content _ (adding_start session source id)
  rw [lowered] at outcome
  cases result with
  | ok value bench => exact outcome
  | error failure bench => exact outcome

end

theorem idOfFile?_bound (session : Session) (source id : String) :
    (bound session source id).registry.idOfFile? source = some id := by
  simp [bound, idOfFile?, recordFile]

private theorem grown_bound {node : FileNode} (id : String)
    (isNew : session.registry.idOfFile? source = none)
    (readable : session.files.stat source = .ok node) (shortest : Nat) :
    Grown shortest session (bound session source id) :=
  ⟨Adds.record shortest id isNew (source_nonempty readable), rfl⟩

/-- Every compilation does to the session only what it may. -/
theorem file_grown (waiting : List String) (includedAt : Location) (fuel : Nat)
    (path id : String) (session : Session) :
    Grown (effectiveId (session.files.absolute path) id).length session
      (finalState (file waiting includedAt fuel path id session)) := by
  induction fuel generalizing waiting includedAt path id session with
  | zero => exact .refl _ _
  | succ fuel ih =>
    have outcome := file_outcome waiting includedAt fuel path id session
    generalize file waiting includedAt (fuel + 1) path id session = result at outcome ⊢
    generalize effectiveId (session.files.absolute path) id = name at outcome ⊢
    generalize session.files.absolute path = source at outcome
    have compiles : ∀ waiting includedAt path id session, id ≠ "" →
        Grown id.length session
          (finalState (file waiting includedAt fuel path id session)) := by
      intro waiting includedAt path id session nonempty
      have grown := ih waiting includedAt path id session
      rwa [effectiveId, if_neg nonempty] at grown
    cases outcome with
    | missing _ => exact .refl _ _
    | circular _ _ => exact .refl _ _
    | endless _ _ => exact .refl _ _
    | duplicate _ _ marked => exact ⟨.duplicate marked, rfl⟩
    | unreadable isNew readable => exact grown_bound name isNew readable name.length
    | failed isNew readable lowered =>
      have added := lowering_from_bound compiles lowered
      have binds := grown_bound name isNew readable name.length
      exact binds.trans (added.weaken (Nat.le_succ _))
    | compiled isNew readable lowered =>
      have adding := lowering_from_bound compiles lowered
      have binds := grown_bound name isNew readable name.length
      have grown := binds.trans (adding.grown.weaken (Nat.le_succ _))
      refine ⟨grown.registry.register ?_ ?_, grown.files⟩
      · exact adding.sameFile ▸ isNew
      · have isBound := adding.grown.registry.files _ _ (idOfFile?_bound session source name)
        rw [← adding.sameFile] at isBound
        exact isBound.trans (congrArg some adding.sameId.symm)

theorem file_grown_named (fuel : Nat) (waiting : List String) (includedAt : Location)
    (path id : String) (session : Session) (nonempty : id ≠ "") :
    Grown id.length session (finalState (file waiting includedAt fuel path id session)) := by
  have grown := file_grown waiting includedAt fuel path id session
  rwa [effectiveId, if_neg nonempty] at grown

end Compile

namespace Registry

variable {registry : Registry} {name first source : String}

/-- Looking up a new duplicate finds what its chain leads to, unless it was made a duplicate of
itself. -/
theorem finds_addDuplicate_iff {marked : Registry}
    (found : registry.addDuplicate? name first = some marked) : marked.Finds name source ↔
      registry.Finds first source ∧ registry.representative? first ≠ some name := by
  obtain ⟨target, represents, rfl⟩ := Option.map_eq_some_iff.mp found
  have isRoot := (representative?_eq_some_iff.mp represents).isRoot
  have isMarked : (registry.duplicates.insert name target).get? name = some target := by simp
  by_cases itself : target = name
  · subst itself
    constructor
    · rintro ⟨root, module, looked, -⟩
      exact absurd isMarked (representative?_eq_some_iff.mp looked).not_itself
    · rintro ⟨-, different⟩
      exact absurd represents different
  · have endsThere : (registry.duplicates.insert name target).get? target = none := by
      simp [itself, isRoot]
    have leads : LeadsTo (registry.duplicates.insert name target) name target :=
      ⟨_, .step isMarked (.root endsThere)⟩
    have looked : ({ registry with
        duplicates := registry.duplicates.insert name target }).representative? name =
          some target := representative?_eq_some_iff.mpr leads
    have different : registry.representative? first ≠ some name := by
      rw [represents]
      exact fun same => itself (Option.some.inj same)
    rw [and_iff_left different]
    simp only [Finds, looked, represents]
    rfl

/-- Looking up the id of a file that was compiled under it finds its module, unless the id was a
duplicate. -/
theorem finds_registered_iff {module : Module} (settled : registry.Settled)
    (isBound : registry.idOfFile? source = some name)
    (registered : registry.registered? name = some module) (sameFile : module.file = source) :
    registry.Finds name source ↔ registry.duplicates.get? name = none := by
  constructor
  · rintro ⟨root, other, looked, found, otherFile⟩
    have isRoot := (representative?_eq_some_iff.mp looked).isRoot
    have member := List.mem_of_find?_eq_some found
    have named : other.id = root := by simpa using List.find?_some found
    have nonempty := settled.named source name isBound
    rcases settled.modules other member with noFile | boundTo
    · exact absurd (otherFile.symm.trans noFile) nonempty
    · rw [otherFile, isBound, named] at boundTo
      cases boundTo
      exact isRoot
  · intro isRoot
    have leads : LeadsTo registry.duplicates name name := ⟨[], .root isRoot⟩
    exact ⟨name, module, representative?_eq_some_iff.mpr leads, registered, sameFile⟩

/-- A bound file for which no module is registered. -/
structure Orphaned (registry : Registry) (source id : String) : Prop where
  isBound : registry.idOfFile? source = some id
  noModule : ∀ module ∈ registry.registrations, module.file ≠ source
  nonempty : source ≠ ""

theorem Adds.orphaned {shortest : Nat} {before after : Registry} {id : String}
    (adds : Adds shortest before after) (orphaned : before.Orphaned source id) :
    after.Orphaned source id where
  isBound := adds.files source id orphaned.isBound
  noModule module member same := by
    subst same
    rcases adds.modules module member with old | noFile | ⟨unbound, -⟩
    · exact orphaned.noModule module old rfl
    · exact orphaned.nonempty noFile
    · simp [orphaned.isBound] at unbound
  nonempty := orphaned.nonempty

theorem Orphaned.not_finds {id : String} (orphaned : registry.Orphaned source id) (name : String) :
    ¬registry.Finds name source := by
  rintro ⟨root, module, -, found, sameFile⟩
  exact orphaned.noModule module (List.mem_of_find?_eq_some found) sameFile

end Registry

namespace Session

open Compile Registry

variable {session : Session} {id path : String}

theorem Reached.settled (reached : session.Reached) : session.registry.Settled := by
  induction reached with
  | new isEmpty =>
    rw [isEmpty]
    constructor
    · intro path id isBound
      cases isBound
    · intro module member
      cases member
  | changed files searchPaths log _ ih => exact ih
  | compiled path id _ ih =>
    rw [compileEntry_eq]
    exact (file_grown _ _ _ _ _ _).registry.settled ih

/-- What can happen to a session: files, search paths and the log change, or an entry file is
compiled. -/
inductive Next (session : Session) : Session → Prop where
  | changed (files : FileTree) (searchPaths : List String) (log : Log) :
      Next session { session with files, searchPaths, log }
  | compiled (path id : String) : Next session (finalState (compileEntry path id session))

/-- A later state of the same session. -/
abbrev Later : Session → Session → Prop := Relation.ReflTransGen Next

theorem Later.orphaned {later : Session} {source : String} (passes : Later session later)
    (orphaned : session.registry.Orphaned source id) : later.registry.Orphaned source id := by
  induction passes with
  | refl => exact orphaned
  | tail _ next ih =>
    cases next with
    | changed files searchPaths log => exact ih
    | compiled path id =>
      rw [compileEntry_eq]
      exact (file_grown _ _ _ _ _ _).registry.orphaned ih

/-- A compilation that succeeds marks its id as a duplicate or registers a module under it. -/
theorem file_ok {after : Session} {given : String} {includedAt : Location} {fuel : Nat}
    (ended : file waiting includedAt (fuel + 1) path id session = .ok given after) :
    given = effectiveId (session.files.absolute path) id ∧
      ((∃ first, session.registry.idOfFile? (session.files.absolute path) = some first ∧
          session.registry.addDuplicate? given first = some after.registry) ∨
        session.registry.idOfFile? (session.files.absolute path) = none ∧
          after.registry.idOfFile? (session.files.absolute path) = some given ∧
          after.registry.duplicates.get? given = session.registry.duplicates.get? given ∧
          ∃ module, after.registry.registered? given = some module ∧
            module.file = session.files.absolute path) := by
  have outcome := file_outcome waiting includedAt fuel path id session
  rw [ended] at outcome
  generalize effectiveId (session.files.absolute path) id = name at outcome ⊢
  generalize session.files.absolute path = source at outcome ⊢
  cases outcome with
  | duplicate isBound _ marked => exact ⟨rfl, .inl ⟨_, isBound, marked⟩⟩
  | @compiled content bench log isNew _ lowered =>
    have adding := lowering_from_bound (file_grown_named _) lowered
    have isBound := adding.grown.registry.files _ _ (idOfFile?_bound session source given)
    have sameDuplicates := adding.grown.registry.duplicates given (Nat.lt_succ_self _)
    have registered (included : Bool) : (bench.session.registry.register
        (bench.frame.finish included)).registered? given = some (bench.frame.finish included) := by
      have named : (bench.frame.finish included).id = given := adding.sameId
      simp [registered?, register, named]
    exact ⟨rfl, .inr ⟨isNew, isBound, sameDuplicates, _, registered _, adding.sameFile⟩⟩

/-- A compilation of a file that was not bound leaves an orphan if it fails. -/
theorem file_orphans {after : Session} {includedAt : Location} {fuel : Nat} {failure : Failure}
    (settled : session.registry.Settled)
    (readable : session.files.stat (session.files.absolute path) = .ok (.file content))
    (unbound : session.registry.idOfFile? (session.files.absolute path) = none)
    (ended : file waiting includedAt (fuel + 1) path id session = .error failure after) :
    after.registry.Orphaned (session.files.absolute path)
      (effectiveId (session.files.absolute path) id) := by
  have outcome := file_outcome waiting includedAt fuel path id session
  rw [ended] at outcome
  generalize effectiveId (session.files.absolute path) id = name at outcome ⊢
  generalize session.files.absolute path = source at readable unbound outcome ⊢
  have nonempty := source_nonempty readable
  have orphaned : (bound session source name).registry.Orphaned source name := by
    constructor
    · exact idOfFile?_bound session source name
    · rintro module member rfl
      rcases settled.modules module member with noFile | isBound
      · exact nonempty noFile
      · simp [unbound] at isBound
    · exact nonempty
  cases outcome with
  | missing unreadable => exact absurd readable (unreadable content)
  | circular isBound _ => simp [unbound] at isBound
  | endless isBound _ => simp [unbound] at isBound
  | unreadable _ _ => exact orphaned
  | failed _ _ lowered =>
    have added := lowering_from_bound (file_grown_named _) lowered
    exact added.registry.orphaned orphaned

/-- A bound file is taken for compiled. -/
theorem file_bound {first target : String} (includedAt : Location) (fuel : Nat)
    (readable : session.files.stat (session.files.absolute path) = .ok (.file content))
    (isBound : session.registry.idOfFile? (session.files.absolute path) = some first)
    (represents : session.registry.representative? first = some target) (absent : first ∉ waiting) :
    ∃ after, file waiting includedAt (fuel + 1) path id session =
        .ok (effectiveId (session.files.absolute path) id) after ∧
      after.registry.registrations = session.registry.registrations := by
  have outcome := file_outcome waiting includedAt fuel path id session
  generalize file waiting includedAt (fuel + 1) path id session = result at outcome ⊢
  cases outcome with
  | missing unreadable => exact absurd readable (unreadable content)
  | circular boundTo waits =>
    rw [isBound] at boundTo
    cases boundTo
    exact absurd waits absent
  | endless boundTo endless =>
    rw [isBound] at boundTo
    cases boundTo
    simp [addDuplicate?, represents] at endless
  | duplicate _ _ marked =>
    obtain ⟨_, -, rfl⟩ := Option.map_eq_some_iff.mp marked
    exact ⟨_, rfl, rfl⟩
  | unreadable isNew _ => simp [isBound] at isNew
  | failed isNew _ _ => simp [isBound] at isNew
  | compiled isNew _ _ => simp [isBound] at isNew

/-- In every session, a compilation that succeeds gives the id it was asked for.  Looking that id up
finds the module of the file exactly in two cases: the file was not bound and the id no duplicate;
or the first id of the file finds its module and stands for another id than the one asked for.  A
compilation that fails leaves a file that was not bound before without a module for the rest of the
session: the file stays bound, no id ever finds a module of it, and compiling or including it again
succeeds without compiling anything. -/
theorem finds_compiled_iff {session : Session} (reached : session.Reached) (path id : String) :
    let source := session.files.absolute path
    let name := effectiveId source id
    (∀ given after, compileEntry path id session = .ok given after →
      given = name ∧
      (after.registry.Finds given source ↔
        match session.registry.idOfFile? source with
        | none => session.registry.duplicates.get? given = none
        | some first => session.registry.Finds first source ∧
          session.registry.representative? first ≠ some given)) ∧
    ∀ content failure after,
      session.files.stat source = .ok (.file content) →
      session.registry.idOfFile? source = none →
      compileEntry path id session = .error failure after →
      ∀ later, Later after later →
        later.registry.idOfFile? source = some name ∧
        (∀ other, ¬later.registry.Finds other source) ∧
        ∀ waiting includedAt fuel path id content target,
          later.files.absolute path = source →
          later.files.stat source = .ok (.file content) →
          later.registry.representative? name = some target →
          name ∉ waiting →
          ∃ last, file waiting includedAt (fuel + 1) path id later =
              .ok (effectiveId source id) last ∧
            last.registry.registrations = later.registry.registrations := by
  constructor
  · intro given after ended
    have settled := (Reached.compiled path id reached).settled
    rw [ended] at settled
    obtain ⟨named, ⟨first, isBound, marked⟩ |
      ⟨isNew, isBound, same, module, registered, sameFile⟩⟩ :=
      file_ok ((compileEntry_eq path id session).symm.trans ended)
    · refine ⟨named, ?_⟩
      rw [isBound]
      exact finds_addDuplicate_iff marked
    · refine ⟨named, ?_⟩
      rw [isNew, ← same]
      exact finds_registered_iff settled isBound registered sameFile
  · intro content failure after readable unbound ended later passes
    rw [compileEntry_eq] at ended
    have orphaned := passes.orphaned (file_orphans reached.settled readable unbound ended)
    refine ⟨orphaned.isBound, orphaned.not_finds, ?_⟩
    intro waiting includedAt fuel again other content target same readable represents absent
    have isBound := orphaned.isBound
    generalize effectiveId (session.files.absolute path) id = name at isBound represents absent
    rw [← same] at readable isBound ⊢
    exact file_bound includedAt fuel readable isBound represents absent

/-- A session with one file, which holds a quotation mark and nothing else. -/
def unclosedText : Session where
  files := { nodes := ⟨[("/main.krk", .file (some ⟨#[34]⟩))]⟩ }

theorem unclosedText_located :
    unclosedText.files.absolute "main.krk" = "/main.krk" ∧ effectiveId "/main.krk" "" = "main" :=
  ⟨rfl, rfl⟩

private theorem lowering_unclosed (waiting : List String) (fuel : Nat) (source id : String)
    (bench : Lowering.Workbench) :
    ∃ failure, lowering waiting fuel source id ⟨#[34]⟩ bench = .error failure bench := by
  have scanned : Token.scan (Text.decode ⟨#[34]⟩) = ⟨[], some (.openString, 1)⟩ := by decide +kernel
  unfold lowering Compile.body
  rw [scanned]
  exact ⟨_, rfl⟩

theorem unclosedText_fails : ∃ failure, compileEntry "main.krk" "" unclosedText = .error failure
      (bound unclosedText "/main.krk" "main") := by
  have outcome := file_outcome [] {} unclosedText.files.files.length "main.krk" "" unclosedText
  rw [compileEntry_eq]
  rw [unclosedText_located.1, unclosedText_located.2] at outcome
  generalize file [] {} _ "main.krk" "" unclosedText = result at outcome ⊢
  cases outcome with
  | missing unreadable => exact absurd rfl (unreadable (some ⟨#[34]⟩))
  | circular isBound _ => cases isBound
  | endless isBound _ => cases isBound
  | duplicate isBound _ _ => cases isBound
  | unreadable _ unreadable => cases unreadable
  | failed _ readable lowered =>
    cases readable
    obtain ⟨failure, fails⟩ := lowering_unclosed [] _ _ _ ⟨bound unclosedText _ _, _⟩
    rw [fails] at lowered
    cases lowered
    exact ⟨_, rfl⟩
  | compiled _ readable lowered =>
    cases readable
    obtain ⟨failure, fails⟩ := lowering_unclosed [] _ _ _ ⟨bound unclosedText _ _, _⟩
    rw [fails] at lowered
    cases lowered

def mendedText : Session :=
  { bound unclosedText "/main.krk" "main" with
    files := { nodes := ⟨[("/main.krk", .file (some ⟨#[]⟩))]⟩ } }

theorem mendedText_orphaned :
    ∃ last, compileEntry "main.krk" "again" mendedText = .ok "again" last ∧
      last.registry.registrations = [] ∧
      ∀ other, ¬mendedText.registry.Finds other "/main.krk" := by
  obtain ⟨failure, failed⟩ := unclosedText_fails
  have reached : unclosedText.Reached := .new rfl
  have passes : Later (bound unclosedText "/main.krk" "main") mendedText :=
    .single (.changed _ _ _)
  obtain ⟨-, finds, again⟩ :=
    (finds_compiled_iff reached "main.krk" "").2 (some ⟨#[34]⟩) failure _ rfl rfl failed mendedText
      passes
  rw [unclosedText_located.1] at finds again
  rw [unclosedText_located.2] at again
  obtain ⟨last, succeeds, same⟩ := again [] {} mendedText.files.files.length "main.krk" "again"
    (some ⟨#[]⟩) "main" rfl rfl rfl (by simp)
  rw [compileEntry_eq]
  exact ⟨last, succeeds, same, finds⟩

end Session

end Kronk
