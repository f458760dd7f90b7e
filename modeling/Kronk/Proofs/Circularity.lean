import Kronk.Proofs.Bindings
import Kronk.Proofs.FilePlaces

/-!
# Circular inclusions

An include statement is refused as circular if the id of its file is the id of a module in the
making.  The files of these modules are bound to their ids all along, so a file in the making is
always refused; any other file is refused only if it has the id of one in the making.
-/

namespace Kronk.Compile

open Lowering Registry Session

/-- Lowering a text makes a call: whatever failure the call comes to on a bench whose code is not
refused, the text comes to it. -/
def Makes (compileIncluded : String → String → Nat → Lower Unit) (text : String)
    (start : Workbench) (call : Call) : Prop :=
  ∀ (other : String → String → Nat → Lower Unit) (failure : Failure) (final : Workbench),
    (∀ unlike : Call, unlike ≠ call → unlike.answer other = unlike.answer compileIncluded) →
    call.answer other = .error failure final → final.frame.draft.refusal? = none →
    body other text start = .error failure final

def resolved (bench : Workbench) (included : List String) : String :=
  bench.session.files.absolute (bench.session.locateInclude bench.frame.module.file included)

theorem Call.resolved_of (written : Source.Include) (path : List String) (bench : Workbench) :
    (Call.of written path bench).bench.session.files.absolute (Call.of written path bench).path =
      resolved bench path := by
  simp only [Call.of, withLog, resolved]

theorem Call.files_of (written : Source.Include) (path : List String) (bench : Workbench) :
    (Call.of written path bench).bench.session.files = bench.session.files := by
  simp only [Call.of, withLog]

theorem Call.registry_of (written : Source.Include) (path : List String) (bench : Workbench) :
    (Call.of written path bench).bench.session.registry = bench.session.registry := by
  simp only [Call.of, withLog]

variable {compileIncluded other : Includer}

variable {written : Source.Include} {bench : Workbench} {waiting included : List String}
  {fuel : Nat} {source id path : String} {session start : Session} {content : Option ByteArray}
  {stack : List (String × String)} {result : EStateM.Result Failure Workbench Unit}

/-- What an include statement comes to depends on the answer to its call only. -/
theorem inclusion_congr (same : ∀ path, (Call.of written path bench).answer compileIncluded =
      (Call.of written path bench).answer other) :
    inclusion compileIncluded written bench = inclusion other written bench := by
  by_cases unused : written.id ∈ bench.frame.module.dependencies
  · have again : bench.frame.module.hasDependency written.id = true := by
      simpa [Module.hasDependency] using unused
    rw [inclusion, inclusion]
    simp only [bind, EStateM.bind, Lower.currentModule, get_apply, pure, EStateM.pure,
      again]
    rfl
  · cases target : written.target with
    | file path => rw [inclusion_file target unused, inclusion_file target unused, same path]
    | runtime name =>
      rw [inclusion, inclusion]
      simp only [target]

/-- What the inclusions of a text preserve holds at every call the text makes.  If it did not, a
handler that fails at this call only would never be seen to differ. -/
theorem Makes.holds {invariant broken : Workbench → Prop} {text : String} {start : Workbench}
    {call : Call} (makes : Makes compileIncluded text start call) (calm : Calm invariant broken)
    (included : ∀ written, Preserves invariant broken (inclusion compileIncluded written))
    (starts : invariant start) : invariant call.bench := by
  classical
  by_contra unreached
  let final : Workbench := ⟨call.bench.session, Frame.initial "" ""⟩
  let failing (failure : Failure) : Includer := fun path id line bench =>
    if (⟨path, id, line, bench⟩ : Call) = call then .error failure final
    else compileIncluded path id line bench
  have elsewhere : ∀ failure (unlike : Call), unlike ≠ call →
      unlike.answer (failing failure) = unlike.answer compileIncluded :=
        fun failure unlike differs =>
    if_neg differs
  have fails : ∀ failure, body (failing failure) text start = .error failure final :=
    fun failure => makes _ failure final (elsewhere failure) (if_pos rfl) rfl
  have unseen : ∀ failure, body compileIncluded text start = body (failing failure) text start := by
    intro failure
    apply (body_agrees calm _ text).same start starts
    intro written _
    refine ⟨included written, fun bench holds => inclusion_congr fun path => ?_⟩
    apply (elsewhere failure _ _).symm
    rintro rfl
    exact unreached (calm.placid.still _ _ (still_log (.trace _ _)) holds)
  have same := (unseen .outOfFuel).symm.trans (unseen (.plain ""))
  rw [fails, fails] at same
  cases same

/-- Calls are made while the lowering does to the session only what it may. -/
theorem Makes.adding {call : Call} {content : ByteArray}
    (makes : Makes (includer waiting source id fuel) (Text.decode content)
      ⟨bound session source id, Frame.initial id source⟩ call) :
    Adding source id (bound session source id) call.bench :=
  makes.holds (adding_calm source id _)
    (fun written => inclusion_adds (file_grown_named fuel) written)
    (adding_start session source id)

/-- The files that a compilation lowers.  The stack holds the modules in the making with their
files, the innermost first; the session is that in which the innermost file is bound next. -/
inductive Enters (start : Session) (path id : String) :
    List (String × String) → Nat → ByteArray → Session → Prop where
  | entry {content : ByteArray} :
      start.registry.idOfFile? (start.files.absolute path) = none →
      start.files.stat (start.files.absolute path) = .ok (.file content) →
      Enters start path id
        [(effectiveId (start.files.absolute path) id, start.files.absolute path)]
        start.files.files.length content start
  | included {name source : String} {waiting : List (String × String)} {fuel : Nat}
      {content inner : ByteArray} {session : Session} {call : Call} :
      Enters start path id ((name, source) :: waiting) (fuel + 1) content session →
      Makes (includer (waiting.map Prod.fst) source name (fuel + 1)) (Text.decode content)
        ⟨bound session source name, Frame.initial name source⟩ call →
      call.bench.session.registry.idOfFile? (call.bench.session.files.absolute call.path) = none →
      call.bench.session.files.stat (call.bench.session.files.absolute call.path) =
        .ok (.file inner) →
      Enters start path id
        ((effectiveId (call.bench.session.files.absolute call.path) call.id,
          call.bench.session.files.absolute call.path) :: (name, source) :: waiting)
        fuel inner call.bench.session

/-- What is known when a file is entered: all files in the making are readable, different and, the
new one apart, bound; so they are no more than there are files, and the fuel lasts. -/
structure Entered (files : FileTree) (stack : List (String × String)) (fuel : Nat)
    (session : Session) : Prop where
  sameFiles : session.files = files
  isBound : ∀ entry ∈ stack.tail, session.registry.idOfFile? entry.2 = some entry.1
  isNew : ∀ entry ∈ stack.head?, session.registry.idOfFile? entry.2 = none
  distinct : (stack.map Prod.snd).Nodup
  readable : ∀ source ∈ stack.map Prod.snd,
    Path.IsClean source ∧ ∃ content, files.stat source = .ok (.file content)
  depth : fuel + stack.length = files.files.length + 1

theorem Entered.isBound_bound {files : FileTree} {name : String} {waiting : List (String × String)}
    (entered : Entered files ((name, source) :: waiting) fuel session) :
    ∀ entry ∈ (name, source) :: waiting,
      (bound session source name).registry.idOfFile? entry.2 = some entry.1 := by
  intro entry member
  rcases List.mem_cons.mp member with rfl | older
  · exact idOfFile?_bound session source name
  · have different : entry.2 ≠ source := by
      rintro rfl
      have distinct := entered.distinct
      rw [List.map_cons, List.nodup_cons] at distinct
      exact distinct.1 (List.mem_map.mpr ⟨entry, older, rfl⟩)
    have isBound := entered.isBound entry older
    simpa [bound, recordFile, idOfFile?, different] using isBound

theorem Enters.entered {content : ByteArray} (rooted : Path.isAbsolute start.files.current = true)
    (enters : Enters start path id stack fuel content session) :
    Entered start.files stack fuel session := by
  induction enters with
  | @entry content isNew readable =>
    constructor
    · rfl
    · intro entry member
      cases member
    · intro entry member
      cases member
      exact isNew
    · exact List.nodup_singleton _
    · intro source member
      rw [List.mem_singleton.mp member]
      exact ⟨Path.isClean_absolute rooted path, content, readable⟩
    · rfl
  | @included name source waiting fuel content inner session call _ makes isNew readable entered =>
    have adding := makes.adding
    have sameFiles : call.bench.session.files = start.files :=
      adding.grown.files.trans entered.sameFiles
    have isBound : ∀ entry ∈ (name, source) :: waiting,
        call.bench.session.registry.idOfFile? entry.2 = some entry.1 := fun entry member =>
      adding.grown.registry.files _ _ (entered.isBound_bound entry member)
    constructor
    · exact sameFiles
    · exact isBound
    · intro entry member
      cases member
      exact isNew
    · rw [List.map_cons, List.nodup_cons]
      refine ⟨fun member => ?_, entered.distinct⟩
      obtain ⟨entry, older, same⟩ := List.mem_map.mp member
      have boundTo := isBound entry older
      rw [same, isNew] at boundTo
      cases boundTo
    · intro other member
      rcases List.mem_cons.mp member with rfl | older
      · rw [sameFiles] at readable ⊢
        exact ⟨Path.isClean_absolute rooted call.path, inner, readable⟩
      · exact entered.readable other older
    · have depth := entered.depth
      simp only [List.length_cons] at depth ⊢
      omega

theorem Entered.fuel_pos {files : FileTree} (entered : Entered files stack fuel session) :
    0 < fuel := by
  have fewer := FileTree.length_le_files entered.distinct entered.readable
  rw [List.length_map] at fewer
  have depth := entered.depth
  omega

/-- A file that is bound to the id of a module in the making is refused. -/
theorem file_circular {first : String} (includedAt : Location) (fuel : Nat) (id : String)
    (readable : session.files.stat (session.files.absolute path) = .ok (.file content))
    (isBound : session.registry.idOfFile? (session.files.absolute path) = some first)
    (waits : first ∈ waiting) : file waiting includedAt (fuel + 1) path id session =
      .error (includeFailure includedAt "Circular dependency detected!! Aborting..") session := by
  have contained : waiting.contains first = true := List.contains_iff_mem.mpr waits
  rw [file_eq]
  simp only [conclusion, readable, isBound, contained, if_true]

/-- A file that is refused and was not bound before is bound to the id of a module in the making. -/
theorem file_refused {includedAt : Location} {message : String} {after : Session}
    (readable : session.files.stat (session.files.absolute path) = .ok (.file content))
    (refused : file waiting includedAt (fuel + 1) path id session =
      .error (includeFailure includedAt message) after) (same : after.registry = session.registry) :
    ∃ first ∈ waiting, session.registry.idOfFile? (session.files.absolute path) = some first := by
  have outcome := file_outcome waiting includedAt fuel path id session
  rw [refused] at outcome
  generalize effectiveId (session.files.absolute path) id = name at outcome
  generalize failed : EStateM.Result.error (includeFailure includedAt message) after = result
    at outcome
  cases outcome with
  | missing unreadable => exact absurd readable (unreadable content)
  | circular isBound waits => exact ⟨_, waits, isBound⟩
  | endless _ _ => cases failed
  | duplicate _ _ _ => cases failed
  | unreadable isNew _ =>
    cases failed
    have isBound := idOfFile?_bound session (session.files.absolute path) name
    rw [same, isNew] at isBound
    cases isBound
  | failed isNew _ lowered =>
    cases failed
    have added := lowering_from_bound (file_grown_named _) lowered
    have isBound := added.registry.files _ _ (idOfFile?_bound session _ name)
    rw [same, isNew] at isBound
    cases isBound
  | compiled _ _ _ => cases failed

/-- Compiling an entry file comes to an include statement of a source file on a bench, under an
alias that its module has not used.  The stack holds the modules in the making with their files, the
including one first; the result is what the statement comes to. -/
inductive Meets (start : Session) (path id : String) :
    List (String × String) → Source.Include → List String → Workbench →
    EStateM.Result Failure Workbench Unit → Prop where
  | inclusion {name source : String} {waiting : List (String × String)} {fuel : Nat}
      {content : ByteArray} {session : Session} {written : Source.Include} {included : List String}
      {bench : Workbench} :
      Enters start path id ((name, source) :: waiting) fuel content session →
      written.target = .file included →
      written.id ∉ bench.frame.module.dependencies →
      Makes (includer (waiting.map Prod.fst) source name fuel) (Text.decode content)
        ⟨bound session source name, Frame.initial name source⟩ (Call.of written included bench) →
      Meets start path id ((name, source) :: waiting) written included bench
        (Lowering.inclusion (includer (waiting.map Prod.fst) source name fuel) written bench)

/-- An include statement reports that it is circular, and does nothing else. -/
def ReportsCircular (written : Source.Include) (bench : Workbench)
    (result : EStateM.Result Failure Workbench Unit) : Prop :=
  ∃ log, result = .error (includeFailure (Location.ofLine bench.frame.module.file written.line)
    "Circular dependency detected!! Aborting..") (withLog bench log)

theorem bench_adding {name : String} {content : ByteArray}
    (makes : Makes (includer waiting source name fuel) (Text.decode content)
      ⟨bound session source name, Frame.initial name source⟩ (Call.of written included bench)) :
    Adding source name (bound session source name) bench :=
  Adding.otherLog makes.adding bench.session.log

/-- All files in the making are bound to the ids of their modules, also where a statement is met. -/
theorem Meets.isBound (rooted : Path.isAbsolute start.files.current = true)
    (meets : Meets start path id stack written included bench result) :
    ∀ entry ∈ stack, bench.session.registry.idOfFile? entry.2 = some entry.1 := by
  obtain ⟨enters, -, -, makes⟩ := meets
  intro entry member
  apply (bench_adding makes).grown.registry.files
  exact (enters.entered rooted).isBound_bound entry member

/-- The including module is the innermost of those in the making. -/
theorem Meets.including (meets : Meets start path id stack written included bench result) :
    stack.head? = some (bench.frame.module.id, bench.frame.module.file) := by
  obtain ⟨enters, -, -, makes⟩ := meets
  have adding := bench_adding makes
  rw [adding.sameId, adding.sameFile]
  rfl

/-- A statement reports that it is circular exactly if its file is bound to the id of a module in
the making. -/
theorem Meets.reports_iff (rooted : Path.isAbsolute start.files.current = true)
    (meets : Meets start path id stack written included bench result)
    (readable : bench.session.files.stat (resolved bench included) = .ok (.file content)) :
    ReportsCircular written bench result ↔
      ∃ entry ∈ stack, bench.session.registry.idOfFile? (resolved bench included) =
        some entry.1 := by
  obtain @⟨name, source, waiting, fuel, _, session, _, _, _, enters, target, unused, makes⟩ := meets
  have sameFile := (bench_adding makes).sameFile
  obtain ⟨fuel, rfl⟩ := Nat.exists_eq_succ_of_ne_zero (enters.entered rooted).fuel_pos.ne'
  have waits : ∀ first, first ∈ name :: waiting.map Prod.fst ↔
      ∃ entry ∈ (name, source) :: waiting, first = entry.1 := by
    intro first
    constructor
    · intro member
      rcases List.mem_cons.mp member with rfl | older
      · exact ⟨_, List.mem_cons_self, rfl⟩
      · obtain ⟨entry, inside, rfl⟩ := List.mem_map.mp older
        exact ⟨entry, List.mem_cons_of_mem _ inside, rfl⟩
    · rintro ⟨entry, member, rfl⟩
      exact List.mem_map_of_mem member
  rw [← Call.files_of written, ← Call.resolved_of written] at readable
  rw [← Call.registry_of written, ← Call.resolved_of written]
  rw [ReportsCircular, inclusion_file target unused, sameFile, Call.answer, includer_eq]
  constructor
  · rintro ⟨log, reported⟩
    split at reported
    · cases reported
    rename_i failure final answered
    split at answered
    · cases answered
    rename_i failure after ended
    cases answered
    injection reported with sameFailure sameBench
    subst sameFailure
    have sameRegistry : after.registry = bench.session.registry :=
      congrArg (fun bench : Workbench => bench.session.registry) sameBench
    rw [← Call.registry_of written included] at sameRegistry
    obtain ⟨first, member, isBound⟩ := file_refused readable ended sameRegistry
    obtain ⟨entry, inside, rfl⟩ := (waits first).mp member
    exact ⟨entry, inside, isBound⟩
  · rintro ⟨entry, inside, isBound⟩
    have member := (waits entry.1).mpr ⟨entry, inside, rfl⟩
    have refused := file_circular (Location.ofLine source written.line) fuel
      (Call.of written included bench).id readable isBound member
    have lined : (Call.of written included bench).line = written.line := rfl
    rw [lined, refused]
    exact ⟨_, rfl⟩

end Kronk.Compile

namespace Kronk.Session

open Compile Lowering

/-- Wherever a compilation in a new session comes to an include statement of a source file that is
there, under a new alias: the including module is the first of those in the making, and all of their
files are bound to their ids.  The statement reports that it is circular exactly if its file is in
the making, or shares its id with a different file that is; and exactly if its file is in the making
if no two files share an id. -/
theorem reports_circular_iff (files : FileTree) (searchPaths : List String) (log : Log)
    (showStatement : Source.Stmt → String) (path id : String)
    (rooted : Path.isAbsolute files.current = true)
    {stack : List (String × String)} {written : Source.Include} {included : List String}
    {bench : Workbench} {result : EStateM.Result Failure Workbench Unit}
    {content : Option ByteArray}
    (meets : Meets { files, searchPaths, log, showStatement } path id stack written included
      bench result)
    (readable : bench.session.files.stat (resolved bench included) = .ok (.file content)) :
    stack.head? = some (bench.frame.module.id, bench.frame.module.file) ∧
    (∀ entry ∈ stack, bench.session.registry.idOfFile? entry.2 = some entry.1) ∧
    (ReportsCircular written bench result ↔
      resolved bench included ∈ stack.map Prod.snd ∨
        ∃ entry ∈ stack, entry.2 ≠ resolved bench included ∧
          bench.session.registry.idOfFile? (resolved bench included) = some entry.1) ∧
    ((∀ first second name, bench.session.registry.idOfFile? first = some name →
        bench.session.registry.idOfFile? second = some name → first = second) →
      (ReportsCircular written bench result ↔ resolved bench included ∈ stack.map Prod.snd)) := by
  have isBound := meets.isBound rooted
  have reports := meets.reports_iff rooted readable
  have exactly : ReportsCircular written bench result ↔
      resolved bench included ∈ stack.map Prod.snd ∨
        ∃ entry ∈ stack, entry.2 ≠ resolved bench included ∧
          bench.session.registry.idOfFile? (resolved bench included) = some entry.1 := by
    rw [reports]
    constructor
    · rintro ⟨entry, member, shared⟩
      by_cases same : entry.2 = resolved bench included
      · exact .inl (List.mem_map.mpr ⟨entry, member, same⟩)
      · exact .inr ⟨entry, member, same, shared⟩
    · rintro (inMaking | ⟨entry, member, -, shared⟩)
      · obtain ⟨entry, member, same⟩ := List.mem_map.mp inMaking
        exact ⟨entry, member, same ▸ isBound entry member⟩
      · exact ⟨entry, member, shared⟩
  refine ⟨meets.including, isBound, exactly, ?_⟩
  intro apart
  rw [exactly, or_iff_left]
  rintro ⟨entry, member, different, shared⟩
  exact different (apart _ _ _ (isBound entry member) shared)

def inclusionOfItself : ByteArray := ⟨#[105, 110, 99, 108, 117, 32, 109]⟩

def selfIncluding : Session where
  files := { nodes := ⟨[("/m.krk", .file inclusionOfItself)]⟩ }

def selfBench : Workbench := ⟨bound selfIncluding "/m.krk" "m", Frame.initial "m" "/m.krk"⟩

theorem inclusionOfItself_makes (compileIncluded : Includer)
    (files : FileTree) (searchPaths : List String) (registry : Registry) (id path : String) :
    Makes compileIncluded (Text.decode inclusionOfItself)
      ⟨{ files, searchPaths, registry }, Frame.initial id path⟩
      (Call.of ⟨1, .file ["m"], none⟩ ["m"]
        ⟨{ files, searchPaths, registry }, Frame.initial id path⟩) := by
  intro other failure final _ failed accepted
  have scanned : Token.scan (Text.decode inclusionOfItself) =
      ⟨[⟨.keyword .inclusion, 1⟩, ⟨.identifier "m", 1⟩, ⟨.endOfFile, 1⟩], none⟩ := by
    decide +kernel
  have lowered : ∃ next, body other (Text.decode inclusionOfItself)
      ⟨{ files, searchPaths, registry }, Frame.initial id path⟩ =
      EStateM.bind (checked (Lowering.inclusion other ⟨1, .file ["m"], none⟩)) next
        ⟨{ files, searchPaths, registry }, Frame.initial id path⟩ := by
    unfold body
    rw [scanned]
    exact ⟨_, rfl⟩
  obtain ⟨next, lowered⟩ := lowered
  rw [lowered, EStateM.bind, checked, inclusion_file rfl (List.not_mem_nil : "m" ∉ []), failed]
  simp only [examined, accepted, Option.map_none, Option.getD_none]

/-- The statement of the file that includes itself reports that it is circular. -/
theorem selfIncluding_reports :
    ∃ result, Meets selfIncluding "m.krk" "" [("m", "/m.krk")] ⟨1, .file ["m"], none⟩ ["m"]
        selfBench result ∧
      ReportsCircular ⟨1, .file ["m"], none⟩ selfBench result := by
  have enters : Enters selfIncluding "m.krk" "" [("m", "/m.krk")]
      selfIncluding.files.files.length inclusionOfItself selfIncluding := .entry rfl rfl
  have unused : "m" ∉ selfBench.frame.module.dependencies := List.not_mem_nil
  have meets : Meets selfIncluding "m.krk" "" [("m", "/m.krk")] ⟨1, .file ["m"], none⟩ ["m"]
      selfBench _ := .inclusion enters rfl unused (inclusionOfItself_makes _ _ _ _ _ _)
  have resolves : resolved selfBench ["m"] = "/m.krk" := rfl
  have readable : selfBench.session.files.stat (resolved selfBench ["m"]) =
      .ok (.file inclusionOfItself) := rfl
  have exactly := (reports_circular_iff _ _ _ _ "m.krk" "" rfl meets readable).2.2.1
  exact ⟨_, meets, exactly.mpr (.inl (resolves ▸ List.mem_singleton.mpr rfl))⟩

end Kronk.Session
