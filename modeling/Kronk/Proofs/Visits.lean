import Mathlib.Data.List.Nodup
import Kronk.Proofs.Compilation

/-!
# The visits of a compilation

Every file that a compilation binds and every module that it registers is reached from the entry
file along a chain of aliases.  The chains are all different, because a file is compiled once and an
alias is used once in a file; the id of a module is what the chain spells.
-/

namespace Kronk

/-- The id of the module that a chain of aliases leads to. -/
def Name.alongAliases (root : String) (aliases : List String) : String :=
  aliases.foldl Name.includeId root

/-- The files that a compilation bound and the modules that it registered, in order, each with the
chain of aliases that leads to it. -/
structure History where
  bound : List (List String × String) := []
  registered : List (List String × Module) := []

namespace History

def chains (history : History) : List (List String) :=
  history.bound.map Prod.fst ++ history.registered.map Prod.fst

/-- The visits seen from a module that includes the entry under an alias. -/
def under (localName : String) (history : History) : History where
  bound := history.bound.map fun visit => (localName :: visit.1, visit.2)
  registered := history.registered.map fun visit => (localName :: visit.1, visit.2)

def append (first second : History) : History :=
  ⟨first.bound ++ second.bound, first.registered ++ second.registered⟩

/-- The visits lead from one registry to another. -/
structure Describes (root : String) (history : History) (before after : Registry) : Prop where
  files : after.files.entries = before.files.entries ++
    history.bound.map fun visit => (visit.2, Name.alongAliases root visit.1)
  registrations : after.registrations =
    (history.registered.map Prod.snd).reverse ++ before.registrations
  ids : ∀ visit ∈ history.registered, visit.2.id = Name.alongAliases root visit.1

/-- The visits form a tree: no chain is used twice, a registered source module was bound before, and
a registered module knows the aliases of the modules below it. -/
structure Sound (history : History) : Prop where
  boundOnce : (history.bound.map Prod.fst).Nodup
  registeredOnce : (history.registered.map Prod.fst).Nodup
  source : ∀ visit ∈ history.registered, visit.2.isRuntime = false →
    (visit.1, visit.2.file) ∈ history.bound
  runtime : ∀ visit ∈ history.registered, visit.2.isRuntime = true →
    visit.1 ∉ history.bound.map Prod.fst
  words : ∀ chain ∈ history.chains, ∀ localName ∈ chain, IsWord localName
  known : ∀ visit ∈ history.registered, ∀ localName,
    visit.1 ++ [localName] ∈ history.chains → localName ∈ visit.2.dependencies

/-- Every bound file was registered. -/
def Complete (history : History) : Prop :=
  ∀ chain ∈ history.bound.map Prod.fst, chain ∈ history.registered.map Prod.fst

theorem Describes.trans {root localName : String} {first second : History}
    {before between after : Registry} (describes : Describes root first before between)
    (later : Describes (Name.includeId root localName) second between after) :
    Describes root (first.append (second.under localName)) before after where
  files := by
    rw [later.files, describes.files]
    simp [append, under, Name.alongAliases, Function.comp_def]
  registrations := by
    rw [later.registrations, describes.registrations]
    simp [append, under, Function.comp_def]
  ids := by
    intro visit member
    rcases List.mem_append.mp member with old | new
    · exact describes.ids visit old
    · obtain ⟨original, isOriginal, rfl⟩ := List.mem_map.mp new
      exact later.ids original isOriginal

theorem sound_empty : Sound {} := by
  constructor <;> simp [chains]

theorem complete_empty : Complete {} := by
  simp [Complete]

section Include

variable {first second : History} {localName : String}

theorem mem_bound_include {chain : List String} {path : String} :
    (chain, path) ∈ (first.append (second.under localName)).bound ↔
      (chain, path) ∈ first.bound ∨
        ∃ rest, (rest, path) ∈ second.bound ∧ chain = localName :: rest := by
  simp only [append, under, List.mem_append, List.mem_map, Prod.mk.injEq, Prod.exists]
  constructor
  · rintro (old | ⟨rest, other, member, rfl, rfl⟩)
    · exact .inl old
    · exact .inr ⟨rest, member, rfl⟩
  · rintro (old | ⟨rest, member, rfl⟩)
    · exact .inl old
    · exact .inr ⟨rest, path, member, rfl, rfl⟩

theorem mem_chains_include {chain : List String} :
    chain ∈ (first.append (second.under localName)).chains ↔
      chain ∈ first.chains ∨ ∃ rest ∈ second.chains, chain = localName :: rest := by
  simp only [chains, append, under, List.map_append, List.mem_append, List.map_map,
    Function.comp_def, List.mem_map]
  constructor
  · rintro ((old | ⟨visit, member, rfl⟩) | (old | ⟨visit, member, rfl⟩))
    · exact .inl (.inl old)
    · exact .inr ⟨visit.1, .inl ⟨visit, member, rfl⟩, rfl⟩
    · exact .inl (.inr old)
    · exact .inr ⟨visit.1, .inr ⟨visit, member, rfl⟩, rfl⟩
  · rintro ((old | old) | ⟨rest, ⟨visit, member, rfl⟩ | ⟨visit, member, rfl⟩, rfl⟩)
    · exact .inl (.inl old)
    · exact .inr (.inl old)
    · exact .inl (.inr ⟨visit, member, rfl⟩)
    · exact .inr (.inr ⟨visit, member, rfl⟩)

theorem nodup_include {α : Type} {old new : List (List String × α)}
    (oldOnce : (old.map Prod.fst).Nodup) (newOnce : (new.map Prod.fst).Nodup)
    (unused : ∀ chain ∈ old.map Prod.fst, ∀ rest, chain ≠ localName :: rest) :
    ((old ++ new.map fun visit => (localName :: visit.1, visit.2)).map Prod.fst).Nodup := by
  have prefixed : (new.map fun visit => (localName :: visit.1, visit.2)).map Prod.fst =
      (new.map Prod.fst).map (List.cons localName) := by
    simp [Function.comp_def]
  rw [List.map_append, prefixed]
  refine oldOnce.append (newOnce.map (List.cons_injective)) ?_
  intro chain isOld isNew
  obtain ⟨rest, -, rfl⟩ := List.mem_map.mp isNew
  exact unused _ isOld rest rfl

/-- An included compilation adds a subtree under an alias that was not used before. -/
theorem Sound.include (sound : Sound first) (below : Sound second) (isWord : IsWord localName)
    (unused : ∀ chain ∈ first.chains, ∀ rest, chain ≠ localName :: rest)
    (unregistered : [] ∉ first.registered.map Prod.fst) :
    Sound (first.append (second.under localName)) where
  boundOnce := nodup_include sound.boundOnce below.boundOnce fun chain member =>
    unused chain (List.mem_append_left _ member)
  registeredOnce := nodup_include sound.registeredOnce below.registeredOnce fun chain member =>
    unused chain (List.mem_append_right _ member)
  source := by
    intro visit member isSource
    rw [mem_bound_include]
    rcases List.mem_append.mp member with old | new
    · exact .inl (sound.source visit old isSource)
    · obtain ⟨original, isOriginal, rfl⟩ := List.mem_map.mp new
      exact .inr ⟨original.1, below.source original isOriginal isSource, rfl⟩
  runtime := by
    intro visit member isRuntime isBound
    obtain ⟨⟨chain, path⟩, boundHere, same⟩ := List.mem_map.mp isBound
    change chain = visit.1 at same
    rcases List.mem_append.mp member with old | new
    · rcases mem_bound_include.mp boundHere with oldBound | ⟨rest, -, rfl⟩
      · exact sound.runtime visit old isRuntime
          (List.mem_map.mpr ⟨(chain, path), oldBound, same⟩)
      · refine unused visit.1 (List.mem_append_right _ (List.mem_map_of_mem old)) rest same.symm
    · obtain ⟨original, isOriginal, rfl⟩ := List.mem_map.mp new
      rcases mem_bound_include.mp boundHere with oldBound | ⟨rest, newBound, rfl⟩
      · exact unused chain (List.mem_append_left _ (List.mem_map_of_mem oldBound)) original.1 same
      · cases same
        exact below.runtime original isOriginal isRuntime
          (List.mem_map.mpr ⟨(original.1, path), newBound, rfl⟩)
  words := by
    intro chain member name isName
    rcases mem_chains_include.mp member with old | ⟨rest, new, rfl⟩
    · exact sound.words chain old name isName
    · rcases List.mem_cons.mp isName with rfl | later
      · exact isWord
      · exact below.words rest new name later
  known := by
    intro visit member name extended
    rcases List.mem_append.mp member with old | new
    · have isChain : visit.1 ∈ first.chains :=
        List.mem_append_right _ (List.mem_map_of_mem old)
      rcases mem_chains_include.mp extended with oldChain | ⟨rest, -, same⟩
      · exact sound.known visit old name oldChain
      · cases chain : visit.1 with
        | nil => exact absurd (chain ▸ List.mem_map_of_mem old) unregistered
        | cons head tail =>
          rw [chain] at same
          cases same
          exact absurd chain (unused visit.1 isChain tail)
    · obtain ⟨original, isOriginal, rfl⟩ := List.mem_map.mp new
      rcases mem_chains_include.mp extended with oldChain | ⟨rest, newChain, same⟩
      · exact absurd rfl (unused _ oldChain (original.1 ++ [name]))
      · cases same
        exact below.known original isOriginal name newChain

end Include

def ofRuntime (id name : String) : History := ⟨[], [([], Module.ofRuntime id name)]⟩

theorem sound_ofRuntime (id name : String) : Sound (ofRuntime id name) := by
  constructor <;> simp [ofRuntime, chains, Module.ofRuntime, Module.isRuntime]

theorem describes_ofRuntime (id name : String) (registry : Registry) :
    Describes id (ofRuntime id name) registry (registry.register (Module.ofRuntime id name)) :=
  ⟨by simp [ofRuntime, Registry.register], by simp [ofRuntime, Registry.register],
    by simp [ofRuntime, Module.ofRuntime, Name.alongAliases]⟩

def ofEntry (source : String) : History := ⟨[([], source)], []⟩

theorem sound_ofEntry (source : String) : Sound (ofEntry source) := by
  constructor <;> simp [ofEntry, chains]

theorem describes_ofEntry {source id : String} {registry : Registry}
    (isNew : registry.idOfFile? source = none) :
    Describes id (ofEntry source) registry (registry.recordFile source id) where
  files := Table.insertEntry_new isNew
  registrations := rfl
  ids := by simp [ofEntry]

/-- The visits with the registration of the entry module at their end. -/
def close (history : History) (module : Module) : History :=
  ⟨history.bound, history.registered ++ [([], module)]⟩

variable {history : History} {module : Module}

theorem Describes.close {root : String} {before after : Registry}
    (describes : Describes root history before after) (named : module.id = root) :
    Describes root (history.close module) before (after.register module) where
  files := describes.files
  registrations := by
    simp [History.close, Registry.register, describes.registrations]
  ids := by
    intro visit member
    rcases List.mem_append.mp member with old | new
    · exact describes.ids visit old
    · rw [List.mem_singleton.mp new]
      exact named

private theorem mem_chains_close {chain : List String} :
    chain ∈ (history.close module).chains ↔ chain ∈ history.chains ∨ chain = [] := by
  simp [chains, History.close, or_assoc]

theorem Sound.close (sound : Sound history) (isSource : module.isRuntime = false)
    (isBound : ([], module.file) ∈ history.bound)
    (unregistered : [] ∉ history.registered.map Prod.fst)
    (aliases : ∀ localName, [localName] ∈ history.chains → localName ∈ module.dependencies) :
    Sound (history.close module) where
  boundOnce := sound.boundOnce
  registeredOnce := by
    rw [History.close, List.map_append]
    refine sound.registeredOnce.append (List.nodup_singleton _) ?_
    intro chain old new
    rcases List.mem_singleton.mp new with rfl
    exact unregistered old
  source := by
    intro visit member sourceModule
    rcases List.mem_append.mp member with old | new
    · exact sound.source visit old sourceModule
    · rw [List.mem_singleton.mp new]
      exact isBound
  runtime := by
    intro visit member isRuntime
    rcases List.mem_append.mp member with old | new
    · exact sound.runtime visit old isRuntime
    · rw [List.mem_singleton.mp new] at isRuntime
      simp [isSource] at isRuntime
  words := by
    intro chain member localName inside
    rcases mem_chains_close.mp member with old | rfl
    · exact sound.words chain old localName inside
    · cases inside
  known := by
    intro visit member localName extended
    have isChain : visit.1 ++ [localName] ∈ history.chains := by
      rcases mem_chains_close.mp extended with old | none
      · exact old
      · simp at none
    rcases List.mem_append.mp member with old | new
    · exact sound.known visit old localName isChain
    · rw [List.mem_singleton.mp new] at isChain ⊢
      exact aliases localName isChain

end History

namespace Compile

open Lowering

/-- The visits so far of a file that is being lowered: the file itself is bound and not yet
registered, and the aliases in use are known to its module. -/
structure Underway (source id : String) (start : Registry) (history : History)
    (bench : Workbench) : Prop where
  sound : history.Sound
  describes : history.Describes id start bench.session.registry
  isBound : ([], source) ∈ history.bound
  unregistered : [] ∉ history.registered.map Prod.fst
  complete : ∀ chain ∈ history.bound.map Prod.fst,
    chain = [] ∨ chain ∈ history.registered.map Prod.fst
  aliases : ∀ chain ∈ history.chains, ∀ localName rest, chain = localName :: rest →
    localName ∈ bench.frame.module.dependencies
  sameId : bench.frame.module.id = id
  sameFile : bench.frame.module.file = source
  isSource : bench.frame.module.runtime = none

def IsUnderway (source id : String) (start : Registry) (bench : Workbench) : Prop :=
  ∃ history, Underway source id start history bench

/-- Some visits lead to the registry of the bench, of whatever is left of the lowering. -/
def Stopped (id : String) (start : Registry) (bench : Workbench) : Prop :=
  ∃ history : History, history.Sound ∧ history.Describes id start bench.session.registry

theorem underway_calm (source id : String) (start : Registry) :
    Calm (IsUnderway source id start) (Stopped id start) where
  quiet before after quiet := by
    rintro ⟨history, underway⟩
    refine ⟨history, ?_⟩
    exact {
      sound := underway.sound
      describes := quiet.registry ▸ underway.describes
      isBound := underway.isBound
      unregistered := underway.unregistered
      complete := underway.complete
      aliases := quiet.dependencies ▸ underway.aliases
      sameId := quiet.id.trans underway.sameId
      sameFile := quiet.file.trans underway.sameFile
      isSource := quiet.runtime.trans underway.isSource }
  breaks bench := by
    rintro ⟨history, underway⟩
    exact ⟨history, underway.sound, underway.describes⟩

/-- A finished compilation made sound visits, which are complete if it succeeded. -/
def Visited (root : String) (start : Registry) (result : EStateM.Result Failure Session String) :
    Prop :=
  ∃ history : History, history.Sound ∧ history.Describes root start (finalState result).registry ∧
    ∀ id session, result = .ok id session → history.Complete

variable {source id : String} {start : Registry}

theorem Underway.include {localName : String} {history below : History} {bench after : Workbench}
    (underway : Underway source id start history bench) (isWord : IsWord localName)
    (unused : localName ∉ bench.frame.module.dependencies) (sound : below.Sound)
    (complete : below.Complete)
    (describes : below.Describes (Name.includeId id localName) bench.session.registry
      after.session.registry) (dependencies : after.frame.module.dependencies =
      bench.frame.module.dependencies ++ [localName])
    (sameId : after.frame.module.id = id) (sameFile : after.frame.module.file = source)
    (isSource : after.frame.module.runtime = none) :
    Underway source id start (history.append (below.under localName)) after where
  sound := by
    refine underway.sound.include sound isWord (fun chain member rest same => ?_)
      underway.unregistered
    exact unused (underway.aliases chain member localName rest same)
  describes := underway.describes.trans describes
  isBound := List.mem_append_left _ underway.isBound
  unregistered := by
    simp only [History.append, History.under, List.map_append, List.mem_append, not_or]
    exact ⟨underway.unregistered, by simp⟩
  complete := by
    intro chain member
    obtain ⟨⟨chain, path⟩, isBound, rfl⟩ := List.mem_map.mp member
    rcases History.mem_bound_include.mp isBound with old | ⟨rest, new, rfl⟩
    · rcases underway.complete chain (List.mem_map_of_mem old) with entry | registered
      · exact .inl entry
      · refine .inr ?_
        rw [History.append, List.map_append]
        exact List.mem_append_left _ registered
    · refine .inr ?_
      rw [History.append, List.map_append]
      refine List.mem_append_right _ ?_
      obtain ⟨visit, registered, same⟩ :=
        List.mem_map.mp (complete rest (List.mem_map_of_mem new))
      change visit.1 = rest at same
      subst same
      exact List.mem_map.mpr ⟨_, List.mem_map.mpr ⟨visit, registered, rfl⟩, rfl⟩
  aliases := by
    intro chain member name rest same
    rw [dependencies]
    rcases History.mem_chains_include.mp member with old | ⟨tail, new, rfl⟩
    · exact List.mem_append_left _ (underway.aliases chain old name rest same)
    · cases same
      exact List.mem_append_right _ (List.mem_singleton.mpr rfl)
  sameId := sameId
  sameFile := sameFile
  isSource := isSource

theorem includeId_ne_empty (module localName : String) : Name.includeId module localName ≠ "" := by
  intro empty
  have length := congrArg String.length empty
  simp [Name.includeId] at length

/-- Compiling an included file leaves the frame as it is. -/
theorem includer_eq (waiting : List String) (source id : String) (fuel : Nat)
    (path includedId : String) (line : Nat) (bench : Workbench) :
    includer waiting source id fuel path includedId line bench =
      match file (id :: waiting) (Location.ofLine source line) fuel path includedId
          bench.session with
      | .ok _ session => .ok () { bench with session }
      | .error failure session => .error failure { bench with session } := by
  unfold includer whileWaiting
  simp only [bind, EStateM.bind]
  cases file (id :: waiting) (Location.ofLine source line) fuel path includedId bench.session <;>
    rfl

theorem includer_eq_ok {waiting : List String} {source id path includedId : String}
    {fuel line : Nat} {before after : Workbench}
    (compiled : includer waiting source id fuel path includedId line before = .ok () after) :
    ∃ value session, file (id :: waiting) (Location.ofLine source line) fuel path includedId
      before.session = .ok value session ∧ after = { before with session } := by
  rw [includer_eq] at compiled
  split at compiled
  · rename_i value session ended
    cases compiled
    exact ⟨value, session, ended, rfl⟩
  · cases compiled

theorem inclusion_visits {waiting : List String} {fuel : Nat}
    (compiles : ∀ waiting includedAt path id session, id ≠ "" →
      Visited id session.registry (file waiting includedAt fuel path id session))
    {written : Source.Include} (isWord : IsWord written.id) :
    Preserves (IsUnderway source id start) (Stopped id start)
      (inclusion (includer waiting source id fuel) written) := by
  rintro bench ⟨history, underway⟩
  have comes := inclusion_cases (includer waiting source id fuel) written bench
  generalize inclusion (includer waiting source id fuel) written bench = result at comes ⊢
  have named := underway.sameId
  subst named
  cases comes with
  | refused => exact ⟨history, underway.sound, underway.describes⟩
  | runtime _ _ unused =>
    refine ⟨_, underway.include isWord unused (History.sound_ofRuntime _ _) ?_
      (History.describes_ofRuntime _ _ _) rfl rfl underway.sameFile underway.isSource⟩
    simp [History.Complete, History.ofRuntime]
  | @failed path log failure after unused compiled =>
    obtain ⟨below, sound, describes, -⟩ := compiles (bench.frame.module.id :: waiting)
      (Location.ofLine source written.line) path _ (withLog bench log).session
      (includeId_ne_empty bench.frame.module.id written.id)
    rw [includer_eq] at compiled
    split at compiled
    · cases compiled
    · rename_i ended
      cases compiled
      rw [ended] at describes
      refine ⟨_, underway.sound.include sound isWord (fun chain member rest same => ?_)
        underway.unregistered, underway.describes.trans describes⟩
      exact unused (underway.aliases chain member written.id rest same)
  | @included path log later after unused compiled =>
    obtain ⟨below, sound, describes, complete⟩ := compiles (bench.frame.module.id :: waiting)
      (Location.ofLine source written.line) path _ (withLog bench log).session
      (includeId_ne_empty bench.frame.module.id written.id)
    obtain ⟨_, _, ended, rfl⟩ := includer_eq_ok compiled
    rw [ended] at describes
    exact ⟨_, underway.include isWord unused sound (complete _ _ ended) describes rfl rfl
      underway.sameFile underway.isSource⟩

private theorem underway_start {session : Session}
    (isNew : session.registry.idOfFile? source = none) :
    IsUnderway source id session.registry ⟨bound session source id, Frame.initial id source⟩ :=
  ⟨History.ofEntry source, {
    sound := History.sound_ofEntry source
    describes := History.describes_ofEntry isNew
    isBound := List.mem_singleton.mpr rfl
    unregistered := by simp [History.ofEntry]
    complete := by simp [History.ofEntry]
    aliases := by simp [History.ofEntry, History.chains]
    sameId := rfl
    sameFile := rfl
    isSource := rfl }⟩

private theorem lowering_visits (waiting : List String) {fuel : Nat} (content : ByteArray)
    (compiles : ∀ waiting includedAt path id session, id ≠ "" →
      Visited id session.registry (file waiting includedAt fuel path id session)) :
    Preserves (IsUnderway source id start) (Stopped id start)
      (lowering waiting fuel source id content) :=
  body_preserves (underway_calm source id start)
    (fun _ isWord => inclusion_visits compiles isWord) _

private theorem visited_nothing {root : String} {result : EStateM.Result Failure Session String}
    (sameFiles : (finalState result).registry.files = start.files)
    (sameRegistrations : (finalState result).registry.registrations = start.registrations) :
    Visited root start result :=
  ⟨{}, History.sound_empty, ⟨by simp [sameFiles], by simp [sameRegistrations], by simp⟩,
    fun _ _ _ => History.complete_empty⟩

theorem file_visits (waiting : List String) (includedAt : Location) (fuel : Nat)
    (path id : String) (session : Session) :
    Visited (effectiveId (session.files.absolute path) id) session.registry
      (file waiting includedAt fuel path id session) := by
  induction fuel generalizing waiting includedAt path id session with
  | zero => exact visited_nothing rfl rfl
  | succ fuel ih =>
    have outcome := file_outcome waiting includedAt fuel path id session
    generalize file waiting includedAt (fuel + 1) path id session = result at outcome ⊢
    generalize effectiveId (session.files.absolute path) id = name at outcome ⊢
    generalize session.files.absolute path = source at outcome
    have compiles : ∀ waiting includedAt path id session, id ≠ "" →
        Visited id session.registry (file waiting includedAt fuel path id session) := by
      intro waiting includedAt path id session nonempty
      have visited := ih waiting includedAt path id session
      rwa [effectiveId, if_neg nonempty] at visited
    cases outcome with
    | missing _ => exact visited_nothing rfl rfl
    | circular _ _ => exact visited_nothing rfl rfl
    | endless _ _ => exact visited_nothing rfl rfl
    | duplicate isBound _ marked =>
      obtain ⟨target, -, rfl⟩ := Option.map_eq_some_iff.mp marked
      exact visited_nothing rfl rfl
    | unreadable isNew _ =>
      obtain ⟨history, sound, describes⟩ :=
        (underway_calm source name session.registry).breaks _ (underway_start isNew)
      exact ⟨history, sound, describes, fun _ _ ok => by cases ok⟩
    | @failed content failure bench isNew _ lowered =>
      have start : IsUnderway source name session.registry _ := underway_start isNew
      have stopped := lowering_visits waiting content compiles _ start
      rw [lowered] at stopped
      obtain ⟨history, sound, describes⟩ := stopped
      exact ⟨history, sound, describes, fun _ _ ok => by cases ok⟩
    | @compiled content bench log isNew _ lowered =>
      have start : IsUnderway source name session.registry _ := underway_start isNew
      have finished := lowering_visits waiting content compiles _ start
      rw [lowered] at finished
      obtain ⟨history, underway⟩ := finished
      have sameFile : (bench.frame.finish (!waiting.isEmpty)).file = source := underway.sameFile
      have isSource : (bench.frame.finish (!waiting.isEmpty)).runtime = none :=
        underway.isSource
      refine ⟨history.close (bench.frame.finish (!waiting.isEmpty)), ?_,
        underway.describes.close underway.sameId, fun _ _ _ chain member => ?_⟩
      · refine underway.sound.close ?_ (sameFile ▸ underway.isBound) underway.unregistered ?_
        · rw [Module.isRuntime, isSource]
          rfl
        · intro localName isChain
          exact underway.aliases _ isChain localName [] rfl
      · rw [History.close, List.map_append]
        rcases underway.complete chain member with rfl | registered
        · exact List.mem_append_right _ (List.mem_singleton.mpr rfl)
        · exact List.mem_append_left _ registered

theorem compileEntry_visits (path id : String) (session : Session) :
    Visited (effectiveId (session.files.absolute path) id) session.registry
      (Session.compileEntry path id session) := by
  rw [compileEntry_eq]
  exact file_visits _ _ _ _ _ _

end Compile

end Kronk
