import Mathlib.Data.List.DropRight
import Kronk.Proofs.Circularity

/-!
# The files that include statements find

An include statement takes the first candidate that is there, be it a file or a directory, and the
including file comes before the search paths.  It reports that the file does not exist exactly if
what it takes is no file.  So a directory hides the files behind it in the list; where there are no
directories, the first file is found, and a file is reported missing exactly if there is none.
-/

namespace Kronk.Path

private theorem foldl_pushElement {elements stack : List (List Char)}
    (plain : ∀ element ∈ elements, IsPlain element) :
    elements.foldl (pushElement true) stack = elements.reverse ++ stack := by
  induction elements generalizing stack with
  | nil => rfl
  | cons element rest ih =>
    obtain ⟨⟨nonempty, notDot, notDots⟩, -⟩ := plain element List.mem_cons_self
    have pushed : pushElement true stack element = element :: stack := by
      simp [pushElement, nonempty, notDot, notDots]
    rw [List.foldl_cons, pushed, ih fun other member => plain other (List.mem_cons_of_mem _ member)]
    simp

theorem isAbsolute_of_isClean {path : String} (isClean : IsClean path) :
    isAbsolute path = true := by
  obtain ⟨elements, -, rfl⟩ := isClean
  simp [isAbsolute]

theorem clean_of_isClean {path : String} (isClean : IsClean path) : clean path = path := by
  have rooted := isAbsolute_of_isClean isClean
  obtain ⟨elements, plain, rfl⟩ := isClean
  have pushed : pushElement true [] [] = [] := by simp [pushElement]
  have same : cleanElements (String.ofList ('/' :: joinElements elements)) = elements := by
    rw [cleanElements, rooted, String.toList_ofList, split, if_pos rfl, List.foldl_cons, pushed]
    cases elements with
    | nil => simp [joinElements, split, pushed]
    | cons element rest =>
      rw [split_joinElements (by simp) fun other member => (plain other member).2,
        foldl_pushElement plain]
      simp
  unfold clean
  rw [if_pos rooted, same]

theorem isAbsolute_directory {path : String} (rooted : isAbsolute path = true) :
    isAbsolute (directory path) = true := by
  have starts : isAbsolute (String.ofList (path.toList.rdropWhile (· ≠ '/'))) = true := by
    rw [isAbsolute, beq_iff_eq] at rooted ⊢
    rw [String.toList_ofList]
    obtain ⟨rest, joined⟩ := List.rdropWhile_prefix (· ≠ '/') (l := path.toList)
    cases kept : path.toList.rdropWhile (· ≠ '/') with
    | nil =>
      rw [List.rdropWhile_eq_nil_iff] at kept
      simpa using kept '/' (List.mem_of_mem_head? rooted)
    | cons c later =>
      rw [kept] at joined
      rw [← joined] at rooted
      exact rooted
  exact isAbsolute_of_isClean (isClean_clean starts)

theorem absolute_of_isClean {path : String} (isClean : IsClean path) (current : String) :
    absolute current path = path := by
  rw [absolute, if_pos (isAbsolute_of_isClean isClean), clean_of_isClean isClean]

end Kronk.Path

namespace Kronk.FileTree

def IsFile (files : FileTree) (path : String) : Prop :=
  ∃ content, files.stat path = .ok (.file content)

theorem hasPath_iff {files : FileTree} {path : String} :
    files.hasPath path = true ↔ files.IsFile path ∨ files.stat path = .ok .directory := by
  rw [hasPath, IsFile]
  cases files.stat path with
  | error cause => simp [Except.toOption]
  | ok node => cases node <;> simp [Except.toOption]

/-- The path is the first one at which anything stands, or the first one at all if there is none. -/
def Takes (files : FileTree) (paths : List String) (taken : String) : Prop :=
  (∃ before after, paths = before ++ taken :: after ∧
    (∀ earlier ∈ before, files.hasPath earlier = false) ∧ files.hasPath taken = true) ∨
  (∀ path ∈ paths, files.hasPath path = false) ∧ paths.head? = some taken

variable {files : FileTree} {paths : List String} {taken : String}

theorem Takes.mem (takes : files.Takes paths taken) : taken ∈ paths := by
  rcases takes with ⟨before, after, rfl, -⟩ | ⟨-, first⟩
  · simp
  · exact List.mem_of_mem_head? first

/-- Of two places in a list they are the same or one is before the other. -/
theorem eq_or_mem_of_split {α : Type} {first last before after : List α} {one other : α}
    (split : first ++ one :: last = before ++ other :: after) :
    one = other ∨ one ∈ before ∨ other ∈ first := by
  rcases List.append_eq_append_iff.mp split with ⟨between, rfl, same⟩ | ⟨between, rfl, same⟩
  · cases between with
    | nil => exact .inl (List.cons.inj same).1
    | cons next later =>
      rw [(List.cons.inj same).1]
      simp
  · cases between with
    | nil => exact .inl (List.cons.inj same).1.symm
    | cons next later =>
      rw [(List.cons.inj same).1]
      simp

/-- The path that is taken is no file exactly if every file comes behind a directory. -/
theorem Takes.not_isFile_iff (takes : files.Takes paths taken) :
    ¬files.IsFile taken ↔ ∀ before file after, paths = before ++ file :: after →
      files.IsFile file → ∃ earlier ∈ before, files.stat earlier = .ok .directory := by
  constructor
  · intro noFile before file after split isFile
    have isThere := hasPath_iff.mpr (.inl isFile)
    rcases takes with ⟨first, last, rfl, absent, found⟩ | ⟨absent, -⟩
    · have isDirectory := (hasPath_iff.mp found).resolve_left noFile
      rcases eq_or_mem_of_split split with rfl | earlier | behind
      · exact absurd isFile noFile
      · exact ⟨taken, earlier, isDirectory⟩
      · have missing := absent file behind
        simp [isThere] at missing
    · have missing := absent file (by simp [split])
      simp [isThere] at missing
  · intro hidden isFile
    have isThere := hasPath_iff.mpr (.inl isFile)
    rcases takes with ⟨first, last, listed, absent, -⟩ | ⟨absent, first⟩
    · obtain ⟨earlier, member, isDirectory⟩ := hidden _ _ _ listed isFile
      have missing := absent earlier member
      simp [hasPath_iff.mpr (.inr isDirectory)] at missing
    · have missing := absent taken (List.mem_of_mem_head? first)
      simp [isThere] at missing

/-- If nothing stands at the paths before a file, the file is taken. -/
theorem Takes.eq_file {before after : List String} {file : String}
    (takes : files.Takes (before ++ file :: after) taken)
    (absent : ∀ earlier ∈ before, files.hasPath earlier = false) (isFile : files.IsFile file) :
    taken = file := by
  have isThere := hasPath_iff.mpr (.inl isFile)
  rcases takes with ⟨first, last, split, missing, found⟩ | ⟨missing, -⟩
  · rcases eq_or_mem_of_split split.symm with same | earlier | behind
    · exact same
    · simp [absent taken earlier] at found
    · simp [missing file behind] at isThere
  · simp [missing file (by simp)] at isThere

end Kronk.FileTree

namespace Kronk.Session

private theorem isClean_includedFile {directory : String}
    (rooted : Path.isAbsolute directory = true)
    (path : List String) : Path.IsClean (includedFile directory path) := by
  have present : directory ≠ "" := by
    rintro rfl
    cases rooted
  have joined : includedFile directory path =
      Path.clean (directory ++ "/" ++ (Path.join path ++ ".krk")) := by
    simp [includedFile, Path.join, present]
  rw [joined, String.append_assoc]
  exact Path.isClean_clean (Path.isAbsolute_append rooted _)

theorem locateInclude_takes (session : Session) (file : String) (path : List String) :
    session.files.Takes (includeCandidates session.searchPaths file path)
      (session.locateInclude file path) := by
  unfold locateInclude
  cases found : (includeCandidates session.searchPaths file path).find? session.files.hasPath with
  | none =>
    rw [List.find?_eq_none] at found
    rw [Option.getD_none]
    refine .inr ⟨fun candidate member => eq_false_of_ne_true (found candidate member), ?_⟩
    rw [includeCandidates, List.map_cons, List.head?_cons]
  | some located =>
    obtain ⟨isThere, before, after, listed, absent⟩ := List.find?_eq_some_iff_append.mp found
    exact .inl ⟨before, after, listed, by simpa using absent, isThere⟩

end Kronk.Session

namespace Kronk

namespace Compile

open Lowering Session

variable {start : Session} {path id : String} {stack : List (String × String)}
  {written : Source.Include} {included : List String} {bench : Workbench}
  {result : EStateM.Result Failure Workbench Unit}

/-- The paths at which an include statement looks for its file, in this order. -/
def candidates (bench : Workbench) (included : List String) : List String :=
  includeCandidates bench.session.searchPaths bench.frame.module.file included

/-- An include statement reports that its file does not exist, and does nothing else. -/
def ReportsMissing (written : Source.Include) (included : List String) (bench : Workbench)
    (result : EStateM.Result Failure Workbench Unit) : Prop :=
  ∃ log, result = .error (includeFailure (Location.ofLine bench.frame.module.file written.line)
    ("The file '" ++ bench.session.locateInclude bench.frame.module.file included ++
      "' doesn't exist !! ")) (withLog bench log)

private theorem file_missing {session : Session} (waiting : List String) (includedAt : Location)
    (fuel : Nat) (path id : String)
    (missing : ¬session.files.IsFile (session.files.absolute path)) :
    file waiting includedAt (fuel + 1) path id session =
      .error (includeFailure includedAt ("The file '" ++ path ++ "' doesn't exist !! "))
        session := by
  rw [file_eq, conclusion]
  split
  · rename_i content readable
    exact absurd ⟨content, readable⟩ missing
  · rfl

private theorem missing_ne_circular (location : Location) (path : String) :
    includeFailure location ("The file '" ++ path ++ "' doesn't exist !! ") ≠
      includeFailure location "Circular dependency detected!! Aborting.." := by
  intro same
  simp only [includeFailure, Failure.report.injEq, Report.mk.injEq, true_and] at same
  have first := congrArg (fun message => message.toList.head?) same
  simp at first

/-- What compiling the file of an include statement comes to, with some fuel left. -/
def attempt (stack : List (String × String)) (written : Source.Include) (included : List String)
    (bench : Workbench) (fuel : Nat) : EStateM.Result Failure Session String :=
  file (stack.map Prod.fst) (Location.ofLine bench.frame.module.file written.line) (fuel + 1)
    (Call.of written included bench).path (Call.of written included bench).id
    (Call.of written included bench).bench.session

/-- An include statement comes to what compiling its file comes to. -/
theorem Meets.outcome (rooted : Path.isAbsolute start.files.current = true)
    (meets : Meets start path id stack written included bench result) : ∃ fuel,
      (∃ given session log, attempt stack written included bench fuel = .ok given session ∧
        result = .ok () (withLog (withDependency { bench with session } written.id) log)) ∨
      ∃ failure session, attempt stack written included bench fuel = .error failure session ∧
        result = .error failure { bench with session } := by
  obtain @⟨name, source, waiting, fuel, _, session, _, _, _, enters, target, unused, makes⟩ := meets
  have sameFile := (bench_adding makes).sameFile
  obtain ⟨fuel, rfl⟩ := Nat.exists_eq_succ_of_ne_zero (enters.entered rooted).fuel_pos.ne'
  refine ⟨fuel, ?_⟩
  have lined : (Call.of written included bench).line = written.line := rfl
  have framed : (Call.of written included bench).bench.frame = bench.frame := rfl
  rw [inclusion_file target unused, Call.answer, includer_eq, attempt, sameFile, lined, framed,
    List.map_cons]
  cases file (name :: waiting.map Prod.fst) (Location.ofLine source written.line) fuel.succ
      (Call.of written included bench).path (Call.of written included bench).id
      (Call.of written included bench).bench.session with
  | ok given session => exact .inl ⟨given, session, _, rfl, rfl⟩
  | error failure session => exact .inr ⟨failure, session, rfl, rfl⟩

/-- The statement reports that its file does not exist exactly if no file stands where it resolves
to. -/
theorem Meets.reportsMissing_iff (rooted : Path.isAbsolute start.files.current = true)
    (meets : Meets start path id stack written included bench result) :
    ReportsMissing written included bench result ↔
      ¬bench.session.files.IsFile (resolved bench included) := by
  have resolves := Call.resolved_of written included bench
  have sameFiles := Call.files_of written included bench
  obtain ⟨fuel, outcome⟩ := meets.outcome rooted
  rw [← sameFiles, ← resolves]
  constructor
  · rintro ⟨log, reported⟩ ⟨content, readable⟩
    rcases outcome with ⟨_, _, _, _, succeeds⟩ | ⟨failure, session, fails, same⟩
    · rw [succeeds] at reported
      cases reported
    · rw [same, EStateM.Result.error.injEq] at reported
      obtain ⟨rfl, sameBench⟩ := reported
      have sameRegistry : session.registry = bench.session.registry :=
        congrArg (fun bench : Workbench => bench.session.registry) sameBench
      rw [← Call.registry_of written included] at sameRegistry
      obtain ⟨first, member, isBound⟩ := file_refused readable fails sameRegistry
      have circular := file_circular (Location.ofLine bench.frame.module.file written.line) fuel
        (Call.of written included bench).id readable isBound member
      rw [← attempt, fails, EStateM.Result.error.injEq] at circular
      exact missing_ne_circular _ _ circular.1
  · intro missing
    have missed := file_missing (stack.map Prod.fst)
      (Location.ofLine bench.frame.module.file written.line) fuel _
      (Call.of written included bench).id missing
    rw [← attempt] at missed
    rcases outcome with ⟨_, _, _, succeeds, _⟩ | ⟨failure, session, fails, same⟩
    · rw [missed] at succeeds
      cases succeeds
    · rw [missed, EStateM.Result.error.injEq] at fails
      obtain ⟨rfl, rfl⟩ := fails
      rw [same]
      exact ⟨(Call.of written included bench).bench.session.log, by simp only [Call.of, withLog]⟩

/-- An include statement finds that its file is bound, or compiles it under an id of its own. -/
structure Uses (source : String) (written : Source.Include) (bench : Workbench)
    (result : EStateM.Result Failure Workbench Unit) : Prop where
  isBound : (finalState result).session.registry.idOfFile? source =
    some ((bench.session.registry.idOfFile? source).getD
      (Name.includeId bench.frame.module.id written.id))
  found : ∀ first after, bench.session.registry.idOfFile? source = some first →
    result = .ok () after → bench.session.registry.addDuplicate?
      (Name.includeId bench.frame.module.id written.id) first = some after.session.registry
  compiled : ∀ after, bench.session.registry.idOfFile? source = none → result = .ok () after →
    ∃ module, after.session.registry.registered?
      (Name.includeId bench.frame.module.id written.id) = some module ∧ module.file = source

/-- A file that can be read is bound once it was compiled, whatever came of it. -/
theorem file_binds {session : Session} {content : Option ByteArray} (waiting : List String)
    (includedAt : Location) (fuel : Nat) {path id : String} (nonempty : id ≠ "")
    (readable : session.files.stat (session.files.absolute path) = .ok (.file content)) :
    (finalState (file waiting includedAt (fuel + 1) path id session)).registry.idOfFile?
        (session.files.absolute path) =
      some ((session.registry.idOfFile? (session.files.absolute path)).getD id) := by
  have grown := (file_grown waiting includedAt (fuel + 1) path id session).registry
  cases isBound : session.registry.idOfFile? (session.files.absolute path) with
  | some first => exact grown.files _ _ isBound
  | none =>
    have outcome := file_outcome waiting includedAt fuel path id session
    rw [effectiveId, if_neg nonempty] at outcome
    generalize file waiting includedAt (fuel + 1) path id session = ended at outcome ⊢
    generalize session.files.absolute path = source at readable isBound outcome ⊢
    cases outcome with
    | missing unreadable => exact absurd readable (unreadable content)
    | circular earlier _ => simp [isBound] at earlier
    | endless earlier _ => simp [isBound] at earlier
    | duplicate earlier _ _ => simp [isBound] at earlier
    | unreadable _ _ => exact idOfFile?_bound session source id
    | failed _ _ lowered =>
      have added := lowering_from_bound (file_grown_named _) lowered
      exact added.registry.files _ _ (idOfFile?_bound session source id)
    | compiled _ _ lowered =>
      have adding := lowering_from_bound (file_grown_named _) lowered
      exact adding.grown.registry.files _ _ (idOfFile?_bound session source id)

theorem Meets.uses (rooted : Path.isAbsolute start.files.current = true)
    (meets : Meets start path id stack written included bench result)
    (isFile : bench.session.files.IsFile (resolved bench included)) :
    Uses (resolved bench included) written bench result := by
  obtain ⟨content, readable⟩ := isFile
  have nonempty : (Call.of written included bench).id ≠ "" :=
    includeId_ne_empty bench.frame.module.id written.id
  rw [← Call.files_of written, ← Call.resolved_of written] at readable
  obtain ⟨fuel, outcome⟩ := meets.outcome rooted
  have binds := file_binds (stack.map Prod.fst)
    (Location.ofLine bench.frame.module.file written.line) fuel nonempty readable
  rw [← attempt, Call.registry_of, Call.resolved_of] at binds
  rcases outcome with ⟨given, session, log, succeeds, rfl⟩ | ⟨failure, session, fails, rfl⟩
  · obtain ⟨named, results⟩ := file_ok succeeds
    rw [effectiveId, if_neg nonempty] at named
    subst named
    rw [Call.registry_of, Call.resolved_of] at results
    rw [succeeds] at binds
    refine ⟨binds, ?_, ?_⟩
    · rintro first _ isBound ⟨⟩
      rcases results with ⟨_, found, marked⟩ | ⟨isNew, _⟩
      · obtain rfl := Option.some.inj (isBound.symm.trans found)
        exact marked
      · simp [isBound] at isNew
    · rintro _ isNew ⟨⟩
      rcases results with ⟨_, found, _⟩ | ⟨_, _, _, registered⟩
      · simp [isNew] at found
      · exact registered
  · rw [fails] at binds
    exact ⟨binds, by simp, by simp⟩

/-- From an absolute place every candidate of a statement is a clean path. -/
theorem Meets.isClean_candidate (rooted : Path.isAbsolute start.files.current = true)
    (meets : Meets start path id stack written included bench result)
    (searched : ∀ directory ∈ bench.session.searchPaths, Path.isAbsolute directory = true)
    {candidate : String} (member : candidate ∈ candidates bench included) :
    Path.IsClean candidate := by
  have including : Path.isAbsolute bench.frame.module.file = true := by
    obtain ⟨enters, -, -, makes⟩ := meets
    rw [(bench_adding makes).sameFile]
    exact Path.isAbsolute_of_isClean ((enters.entered rooted).readable _ List.mem_cons_self).1
  obtain ⟨directory, searches, rfl⟩ := List.mem_map.mp member
  apply isClean_includedFile
  rcases List.mem_cons.mp searches with rfl | later
  · exact Path.isAbsolute_directory including
  · exact searched directory later

end Compile

namespace Session

open Compile Lowering

/-- An include statement takes the first of its candidates that is there, or the first one if none
is.  It reports that the file does not exist exactly if what it took is no file, and else uses it.
So if the search paths are absolute, the first file in the list is used unless a directory comes
before it, and the file is reported missing exactly if every file in the list comes behind a
directory. -/
theorem include_discovery {start : Session} {path id : String}
    (rooted : Path.isAbsolute start.files.current = true) {stack : List (String × String)}
    {written : Source.Include} {included : List String} {bench : Workbench}
    {result : EStateM.Result Failure Workbench Unit}
    (meets : Meets start path id stack written included bench result) :
    let files := bench.session.files
    let located := bench.session.locateInclude bench.frame.module.file included
    files.Takes (candidates bench included) located ∧
    (ReportsMissing written included bench result ↔ ¬files.IsFile (files.absolute located)) ∧
    (files.IsFile (files.absolute located) → Uses (files.absolute located) written bench result) ∧
    ((∀ directory ∈ bench.session.searchPaths, Path.isAbsolute directory = true) →
      (ReportsMissing written included bench result ↔
        ∀ before file after, candidates bench included = before ++ file :: after →
          files.IsFile file → ∃ earlier ∈ before, files.stat earlier = .ok .directory) ∧
      ∀ before file after, candidates bench included = before ++ file :: after →
        (∀ earlier ∈ before, ¬files.IsFile earlier ∧ files.stat earlier ≠ .ok .directory) →
        files.IsFile file → Uses file written bench result) := by
  intro files located
  have takes : files.Takes (candidates bench included) located :=
    locateInclude_takes bench.session bench.frame.module.file included
  have reports := meets.reportsMissing_iff rooted
  have uses := meets.uses rooted
  refine ⟨takes, reports, uses, fun searched => ?_⟩
  have same : resolved bench included = located :=
    Path.absolute_of_isClean (meets.isClean_candidate rooted searched takes.mem) files.current
  rw [same] at reports uses
  refine ⟨reports.trans takes.not_isFile_iff, ?_⟩
  intro before file after split others isFile
  have absent : ∀ earlier ∈ before, files.hasPath earlier = false := by
    intro earlier member
    rw [← Bool.not_eq_true, FileTree.hasPath_iff, not_or]
    exact others earlier member
  rw [split] at takes
  rw [takes.eq_file absent isFile] at uses
  exact uses isFile

/-- A session in which `/main.krk` includes `m`: there is a directory `/m.krk`, and a file
`/lib/m.krk` in the search path. -/
def hiddenFile : Session where
  files := { nodes := ⟨[("/main.krk", .file inclusionOfItself), ("/m.krk", .directory),
    ("/lib", .directory), ("/lib/m.krk", .file (some ⟨#[]⟩))]⟩ }
  searchPaths := ["/lib"]

def hiddenBench : Workbench :=
  ⟨bound hiddenFile "/main.krk" "main", Frame.initial "main" "/main.krk"⟩

/-- The file in the search path is hidden by the directory next to the including file. -/
theorem hiddenFile_reported_missing :
    hiddenFile.files.IsFile "/lib/m.krk" ∧ "/lib/m.krk" ∈ candidates hiddenBench ["m"] ∧
      ∃ result, Meets hiddenFile "main.krk" "" [("main", "/main.krk")] ⟨1, .file ["m"], none⟩ ["m"]
          hiddenBench result ∧
        ReportsMissing ⟨1, .file ["m"], none⟩ ["m"] hiddenBench result := by
  have listed : candidates hiddenBench ["m"] = ["/m.krk", "/lib/m.krk"] := by decide +kernel
  have enters : Enters hiddenFile "main.krk" "" [("main", "/main.krk")]
      hiddenFile.files.files.length inclusionOfItself hiddenFile := .entry rfl rfl
  have meets : Meets hiddenFile "main.krk" "" [("main", "/main.krk")] ⟨1, .file ["m"], none⟩ ["m"]
      hiddenBench _ :=
    .inclusion enters rfl List.not_mem_nil (inclusionOfItself_makes _ _ _ _ _ _)
  refine ⟨⟨_, rfl⟩, by simp [listed], _, meets, ?_⟩
  refine ((include_discovery rfl meets).2.2.2 (by decide)).1.mpr ?_
  intro before file after split isFile
  rw [listed] at split
  cases before with
  | nil =>
    obtain ⟨rfl, -⟩ := List.cons.inj split
    obtain ⟨content, isFile⟩ := isFile
    cases isFile
  | cons first rest =>
    obtain ⟨rfl, -⟩ := List.cons.inj split
    exact ⟨_, List.mem_cons_self, rfl⟩

end Session

end Kronk
