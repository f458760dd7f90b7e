import Mathlib.Data.List.Perm.Basic
import Kronk.Proofs.Duplicates
import Kronk.Proofs.PathTail
import Kronk.Proofs.Visits

/-!
# One module for each file

The id of a module spells the chain of aliases that leads to it, with `_` between them.  Different
files have different chains, so their ids are different exactly if no two of the chains are spelled
alike.  Chains of aliases without `_` never are; then every compiled file has its own module, and
its code is written to a path of its own.
-/

namespace Kronk

variable {first second : List String} {registry : Registry}

namespace Name

/-- The characters that a chain of aliases adds to an id. -/
def spelled (aliases : List String) : List Char :=
  aliases.flatMap fun localName => '_' :: localName.toList

theorem toList_alongAliases (root : String) (aliases : List String) :
    (alongAliases root aliases).toList = root.toList ++ spelled aliases := by
  induction aliases generalizing root with
  | nil => simp [alongAliases, spelled]
  | cons localName rest ih =>
    have step := ih (includeId root localName)
    simp only [alongAliases, List.foldl_cons, spelled, List.flatMap_cons] at step ⊢
    rw [step]
    simp [includeId]

theorem alongAliases_inj {root : String}
    (same : alongAliases root first = alongAliases root second) :
    spelled first = spelled second := by
  have characters := congrArg String.toList same
  rw [toList_alongAliases, toList_alongAliases] at characters
  exact List.append_cancel_left characters

private theorem takeWhile_spelled {localName : String} (plain : '_' ∉ localName.toList)
    (rest : List String) :
    (localName.toList ++ spelled rest).takeWhile (· ≠ '_') = localName.toList := by
  have passes : ∀ c ∈ localName.toList, decide (c ≠ '_') = true := by
    intro c member
    simp only [decide_eq_true_eq]
    rintro rfl
    exact plain member
  rw [List.takeWhile_append_of_pos passes]
  cases rest <;> simp [spelled]

/-- Chains of aliases without underscores are not spelled alike. -/
theorem spelled_injective (plainFirst : ∀ localName ∈ first, '_' ∉ localName.toList)
    (plainSecond : ∀ localName ∈ second, '_' ∉ localName.toList)
    (same : spelled first = spelled second) : first = second := by
  induction first generalizing second with
  | nil =>
    cases second with
    | nil => rfl
    | cons other later => simp [spelled] at same
  | cons localName rest ih =>
    cases second with
    | nil => simp [spelled] at same
    | cons other later =>
      have tails : localName.toList ++ spelled rest = other.toList ++ spelled later := by
        simpa [spelled] using same
      have plain := plainFirst localName List.mem_cons_self
      have plainOther := plainSecond other List.mem_cons_self
      have heads : localName.toList = other.toList := by
        rw [← takeWhile_spelled plain rest, tails, takeWhile_spelled plainOther later]
      rw [heads] at tails
      have restSame := ih
        (fun name member => plainFirst name (List.mem_cons_of_mem _ member))
        (fun name member => plainSecond name (List.mem_cons_of_mem _ member))
        (List.append_cancel_left tails)
      rw [String.toList_inj.mp heads, restSame]

theorem slash_notMem_spelled {aliases : List String}
    (words : ∀ localName ∈ aliases, IsWord localName) : '/' ∉ spelled aliases := by
  intro member
  obtain ⟨localName, isAlias, inside⟩ := List.mem_flatMap.mp member
  rcases List.mem_cons.mp inside with slash | later
  · cases slash
  · have wordChar := (words localName isAlias).wordChar '/' later
    revert wordChar
    decide

end Name

namespace Table

variable {α : Type}

theorem foldl_insert_new {earlier later : List (String × α)}
    (distinct : ((earlier ++ later).map Prod.fst).Nodup) :
    later.foldl (fun table entry => table.insert entry.1 entry.2) ⟨earlier⟩ =
      (⟨earlier ++ later⟩ : Table α) := by
  induction later generalizing earlier with
  | nil => simp
  | cons entry rest ih =>
    have absent : earlier.lookup entry.1 = none := by
      rw [List.lookup_eq_none_iff]
      intro other member
      rw [List.map_append, List.nodup_append] at distinct
      have different := distinct.2.2 other.1 (List.mem_map_of_mem member) entry.1 (by simp)
      simpa using Ne.symm different
    have inserted : (⟨earlier⟩ : Table α).insert entry.1 entry.2 = ⟨earlier ++ [entry]⟩ :=
      congrArg Table.mk (insertEntry_new absent)
    rw [List.foldl_cons, inserted, ih (by simpa using distinct)]
    simp

/-- A table of entries with different keys lists them all. -/
theorem entries_ofList {entries : List (String × α)}
    (distinct : (entries.map Prod.fst).Nodup) : (ofList entries).entries = entries :=
  congrArg Table.entries (foldl_insert_new
    (show (([] ++ entries).map Prod.fst).Nodup from distinct))

end Table

namespace Registry

/-- Modules of different ids are all listed. -/
theorem sortedModules_perm (distinct : (registry.registrations.map Module.id).Nodup) :
    registry.sortedModules.Perm registry.registrations := by
  have keys : ((registry.registrations.reverse.map fun module => (module.id, module)).map
      Prod.fst).Nodup := by
    simpa [Function.comp_def] using distinct
  have sorted : registry.modules.sorted.Perm
      (registry.registrations.reverse.map fun module => (module.id, module)) := by
    unfold Table.sorted modules
    rw [Table.entries_ofList keys]
    exact List.mergeSort_perm _ _
  have listed := sorted.map Prod.snd
  rw [List.map_map, Function.comp_def, List.map_id''] at listed
  · exact listed.trans (List.reverse_perm _)
  · exact fun _ => rfl

end Registry

namespace History

private theorem path_unique {history : History} (sound : history.Sound) {chain : List String}
    {first second : String} (isFirst : (chain, first) ∈ history.bound)
    (isSecond : (chain, second) ∈ history.bound) : first = second := by
  have same := List.inj_on_of_nodup_map sound.boundOnce isFirst isSecond rfl
  exact congrArg Prod.snd same

/-- The source modules of complete visits are those of the bound files. -/
theorem sourceVisits_perm {history : History} (sound : history.Sound)
    (complete : history.Complete) : ((history.registered.filter fun visit => !visit.2.isRuntime).map
      fun visit => (visit.1, visit.2.file)).Perm history.bound := by
  have sources : ((history.registered.filter fun visit => !visit.2.isRuntime).map
      fun visit => (visit.1, visit.2.file)).Nodup := by
    refine List.Nodup.of_map Prod.fst ?_
    rw [List.map_map]
    exact sound.registeredOnce.sublist (List.Sublist.map _ List.filter_sublist)
  rw [List.perm_ext_iff_of_nodup sources (List.Nodup.of_map Prod.fst sound.boundOnce)]
  rintro ⟨chain, path⟩
  constructor
  · intro member
    obtain ⟨visit, isVisit, same⟩ := List.mem_map.mp member
    obtain ⟨registered, isSource⟩ := List.mem_filter.mp isVisit
    rw [← same]
    exact sound.source visit registered (by simpa using isSource)
  · intro isBound
    obtain ⟨visit, registered, same⟩ :=
      List.mem_map.mp (complete chain (List.mem_map_of_mem isBound))
    change visit.1 = chain at same
    subst same
    have isSource : visit.2.isRuntime = false := by
      cases isRuntime : visit.2.isRuntime with
      | false => rfl
      | true =>
        exact absurd (List.mem_map_of_mem isBound) (sound.runtime visit registered isRuntime)
    refine List.mem_map.mpr ⟨visit, List.mem_filter.mpr ⟨registered, by simp [isSource]⟩, ?_⟩
    rw [path_unique sound isBound (sound.source visit registered isSource)]

end History

/-- No two files are bound to one id, and no module is registered under the id of another. -/
structure Registry.Apart (registry : Registry) : Prop where
  files : (registry.files.entries.map Prod.snd).Nodup
  modules : (registry.registrations.map Module.id).Nodup

namespace History

/-- No two of the chains that lead to files are spelled alike, and no two of those that lead to
registered modules. -/
structure SpelledApart (history : History) : Prop where
  bound : ∀ first ∈ history.bound.map Prod.fst, ∀ second ∈ history.bound.map Prod.fst,
    Name.spelled first = Name.spelled second → first = second
  registered : ∀ first ∈ history.registered.map Prod.fst,
    ∀ second ∈ history.registered.map Prod.fst,
    Name.spelled first = Name.spelled second → first = second

variable {root : String} {history : History}

private theorem nodup_alongAliases_iff {chains : List (List String)} (distinct : chains.Nodup) :
    (chains.map (Name.alongAliases root)).Nodup ↔ ∀ first ∈ chains, ∀ second ∈ chains,
        Name.spelled first = Name.spelled second → first = second := by
  rw [List.nodup_map_iff_inj_on distinct]
  have spelling : ∀ first second, Name.alongAliases root first = Name.alongAliases root second ↔
      Name.spelled first = Name.spelled second := by
    intro first second
    refine ⟨Name.alongAliases_inj, fun same => String.toList_inj.mp ?_⟩
    rw [Name.toList_alongAliases, Name.toList_alongAliases, same]
  simp only [spelling]

theorem apart_iff (sound : history.Sound) (describes : history.Describes root {} registry) :
    registry.Apart ↔ history.SpelledApart := by
  have fileIds : registry.files.entries.map Prod.snd =
      (history.bound.map Prod.fst).map (Name.alongAliases root) := by
    rw [describes.files]
    simp [Function.comp_def]
  have moduleIds : registry.registrations.map Module.id =
      ((history.registered.map Prod.fst).map (Name.alongAliases root)).reverse := by
    rw [describes.registrations]
    simp only [List.append_nil, List.map_reverse, List.map_map]
    exact congrArg List.reverse (List.map_congr_left describes.ids)
  constructor
  · rintro ⟨files, modules⟩
    rw [fileIds] at files
    rw [moduleIds, List.nodup_reverse] at modules
    exact ⟨(nodup_alongAliases_iff sound.boundOnce).mp files,
      (nodup_alongAliases_iff sound.registeredOnce).mp modules⟩
  · rintro ⟨bound, registered⟩
    refine ⟨?_, ?_⟩
    · rw [fileIds]
      exact (nodup_alongAliases_iff sound.boundOnce).mpr bound
    · rw [moduleIds, List.nodup_reverse]
      exact (nodup_alongAliases_iff sound.registeredOnce).mpr registered

theorem spelledApart_of_plain
    (plain : ∀ chain ∈ history.chains, ∀ localName ∈ chain, '_' ∉ localName.toList) :
    history.SpelledApart where
  bound first isFirst second isSecond :=
    Name.spelled_injective (plain first (List.mem_append_left _ isFirst))
      (plain second (List.mem_append_left _ isSecond))
  registered first isFirst second isSecond :=
    Name.spelled_injective (plain first (List.mem_append_right _ isFirst))
      (plain second (List.mem_append_right _ isSecond))

/-- After complete visits the source modules are those of the bound files. -/
theorem sourceModules_perm (sound : history.Sound) (describes : history.Describes root {} registry)
    (complete : history.Complete) (apart : registry.Apart) :
    (registry.sourceModules.map Module.file).Perm (registry.files.entries.map Prod.fst) := by
  have registered : registry.registrations.Perm (history.registered.map Prod.snd) := by
    rw [describes.registrations, List.append_nil]
    exact List.reverse_perm _
  have listed := (Registry.sortedModules_perm apart.modules).trans registered
  have sources := (listed.filter fun module => !module.isRuntime).map Module.file
  rw [List.filter_map, List.map_map] at sources
  have visits := (sourceVisits_perm sound complete).map Prod.snd
  rw [List.map_map] at visits
  have paths : registry.files.entries.map Prod.fst = history.bound.map Prod.snd := by
    rw [describes.files]
    simp [Function.comp_def]
  rw [paths]
  exact sources.trans visits

end History

namespace Session

def codePath (directory : String) (module : Module) : String :=
  Path.join [directory, module.id ++ ".ll"]

variable {directory : String}

theorem writeModules_eq {modules : List Module} {session later : Session} {written : List String}
    (wrote : writeModules directory modules session = .ok written later) :
    written = modules.map (codePath directory) := by
  induction modules generalizing session written with
  | nil =>
    cases wrote
    rfl
  | cons module rest ih =>
    rw [writeModules] at wrote
    simp only [bind, EStateM.bind, get_apply] at wrote
    cases put : session.files.write (Path.join [directory, module.id ++ ".ll"])
        module.code.text.toUTF8 with
    | error failure =>
      rw [put] at wrote
      cases wrote
    | ok files =>
      rw [put] at wrote
      change EStateM.bind (writeModules directory rest) _ { session with files } = _ at wrote
      unfold EStateM.bind at wrote
      split at wrote
      · rename_i paths state ended
        cases wrote
        rw [ih ended]
        rfl
      · cases wrote

private theorem writeCode_eq {session later : Session} {written : List String}
    (wrote : writeCode directory session = .ok written later) :
    written = session.sourceModules.map (codePath directory) := by
  rw [writeCode] at wrote
  simp only [bind, EStateM.bind, get_apply] at wrote
  cases made : FileTree.makeDirectories directory session.files with
  | error failure files =>
    rw [made] at wrote
    cases wrote
  | ok value files =>
    rw [made] at wrote
    exact writeModules_eq wrote

theorem codePath_inj {root : String} {module other : Module}
    (words : ∀ localName ∈ first, IsWord localName)
    (otherWords : ∀ localName ∈ second, IsWord localName)
    (named : module.id = Name.alongAliases root first)
    (otherNamed : other.id = Name.alongAliases root second)
    (same : codePath directory module = codePath directory other) : module.id = other.id := by
  have tails : ∀ (module : Module) (aliases : List String),
      (∀ localName ∈ aliases, IsWord localName) → module.id = Name.alongAliases root aliases →
      Path.tail (codePath directory module).toList =
        Path.tail root.toList ++ (Name.spelled aliases ++ ".ll".toList) := by
    intro module aliases words named
    have plain : '/' ∉ Name.spelled aliases ++ ".ll".toList := by
      rw [List.mem_append, not_or]
      exact ⟨Name.slash_notMem_spelled words, by decide⟩
    have tailed : Path.tail (module.id ++ ".ll").toList =
        Path.tail root.toList ++ (Name.spelled aliases ++ ".ll".toList) := by
      rw [String.toList_append, named, Name.toList_alongAliases, List.append_assoc,
        Path.tail_append plain]
    have ordinary : Path.IsOrdinary (Path.tail (module.id ++ ".ll").toList) := by
      rw [tailed]
      have long : 3 ≤ (Path.tail root.toList ++
          (Name.spelled aliases ++ ".ll".toList)).length := by
        simp
        omega
      refine ⟨?_, ?_, ?_⟩ <;>
        intro short <;>
        rw [short] at long <;>
        simp at long
    rw [codePath, Path.tail_join ordinary, tailed]
  have spelled := congrArg (fun path => Path.tail path.toList) same
  simp only [tails module first words named, tails other second otherWords otherNamed] at spelled
  have same := List.append_cancel_right (List.append_cancel_left spelled)
  apply String.toList_inj.mp
  rw [named, otherNamed, Name.toList_alongAliases, Name.toList_alongAliases, same]

theorem codePaths_nodup {history : History} {root : String} (sound : history.Sound)
    (describes : history.Describes root {} registry) (apart : registry.Apart) :
    (registry.sourceModules.map (codePath directory)).Nodup := by
  have sorted := Registry.sortedModules_perm apart.modules
  have listed : ∀ module ∈ registry.sourceModules, ∃ chain,
      (∀ localName ∈ chain, IsWord localName) ∧ module.id = Name.alongAliases root chain := by
    intro module member
    have registered := sorted.mem_iff.mp (List.mem_filter.mp member).1
    rw [describes.registrations, List.append_nil, List.mem_reverse] at registered
    obtain ⟨visit, isVisit, rfl⟩ := List.mem_map.mp registered
    refine ⟨visit.1, sound.words visit.1 ?_, describes.ids visit isVisit⟩
    exact List.mem_append_right _ (List.mem_map_of_mem isVisit)
  have ids : (registry.sourceModules.map Module.id).Nodup :=
    ((sorted.map Module.id).nodup_iff.mpr apart.modules).sublist
      (List.Sublist.map _ List.filter_sublist)
  rw [List.Nodup, List.pairwise_map] at ids ⊢
  refine ids.imp_of_mem fun isFirst isSecond different same => different ?_
  obtain ⟨first, words, named⟩ := listed _ isFirst
  obtain ⟨second, otherWords, otherNamed⟩ := listed _ isSecond
  exact codePath_inj words otherWords named otherNamed same

/-- In one compilation in a new session no two files get one id, and no module is registered under
the id of another, exactly if no two chains of aliases are spelled alike; chains of aliases without
an underscore never are.  If that is so, a compilation that succeeds yields one module for each file
it compiled, and their code is written to different paths. -/
theorem modules_apart_iff_spelled_apart (files : FileTree) (searchPaths : List String) (log : Log)
    (showStatement : Source.Stmt → String) (path id : String) :
    ∃ history : History,
      let result := compileEntry path id { files, searchPaths, log, showStatement }
      let registry := (finalState result).registry
      history.Sound ∧
      history.Describes (Compile.effectiveId (files.absolute path) id) {} registry ∧
      (registry.files.entries.map Prod.fst).Nodup ∧
      (registry.Apart ↔ history.SpelledApart) ∧
      ((∀ chain ∈ history.chains, ∀ localName ∈ chain, '_' ∉ localName.toList) →
        history.SpelledApart) ∧
      ∀ name session, result = .ok name session → registry.Apart →
        (session.sourceModules.map Module.file).Perm (registry.files.entries.map Prod.fst) ∧
        ∀ directory written later, writeCode directory session = .ok written later →
          written = session.sourceModules.map (codePath directory) ∧ written.Nodup := by
  have reaches :=
    Compile.compileEntry_reaches path id { files, searchPaths, log, showStatement }
  obtain ⟨history, sound, describes, complete⟩ :=
    Compile.compileEntry_visits path id { files, searchPaths, log, showStatement }
  refine ⟨history, sound, describes, Registry.Reaches.files_nodup reaches,
    History.apart_iff sound describes, History.spelledApart_of_plain, ?_⟩
  intro name session ended apart
  have isFinal : finalState
      (compileEntry path id { files, searchPaths, log, showStatement }) = session := by
    rw [ended]
    rfl
  subst isFinal
  refine ⟨History.sourceModules_perm sound describes (complete _ _ ended) apart, ?_⟩
  intro directory written later wrote
  have paths := writeCode_eq wrote
  exact ⟨paths, paths ▸ codePaths_nodup sound describes apart⟩

end Session

end Kronk
