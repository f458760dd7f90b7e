import Kronk.Proofs.Circularity
import Kronk.Proofs.Courses

/-!
# Files inside files

A file is bound before its text is read, and bindings stay.  So a compilation opens different files,
and the files that wait for each other are all different: there are no more of them than there are
files.
-/

namespace Kronk

namespace Places

/-- The tree is the same, and what was bound is still bound to the same id. -/
structure Extends (before after : Places) : Prop where
  files : after.files = before.files
  ids : ∀ path id, before.ids.get? path = some id → after.ids.get? path = some id

theorem Extends.refl (places : Places) : Extends places places := ⟨rfl, fun _ _ isBound => isBound⟩

theorem Extends.trans {before between after : Places} (first : Extends before between)
    (second : Extends between after) : Extends before after where
  files := second.files.trans first.files
  ids path id isBound := second.ids path id (first.ids path id isBound)

/-- The paths are different; none was bound before, all are bound after, and no others became
bound. -/
structure Binds (before after : Places) (paths : List String) : Prop where
  extends_ : Extends before after
  distinct : paths.Nodup
  wereNew : ∀ path ∈ paths, before.ids.get? path = none
  areBound : ∀ path ∈ paths, ∃ id, after.ids.get? path = some id
  noOthers : ∀ path id, after.ids.get? path = some id →
    path ∈ paths ∨ before.ids.get? path = some id

namespace Binds

variable {before between after : Places} {first second : List String}

theorem nothing (places : Places) : Binds places places [] where
  extends_ := .refl places
  distinct := List.nodup_nil
  wereNew := nofun
  areBound := nofun
  noOthers _ _ isBound := .inr isBound

theorem append (binds : Binds before between first) (later : Binds between after second) :
    Binds before after (first ++ second) where
  extends_ := binds.extends_.trans later.extends_
  distinct := by
    refine List.Nodup.append binds.distinct later.distinct fun path early late => ?_
    obtain ⟨id, isBound⟩ := binds.areBound path early
    have isNew := later.wereNew path late
    rw [isBound] at isNew
    cases isNew
  wereNew path member := by
    rcases List.mem_append.mp member with early | late
    · exact binds.wereNew path early
    · cases isBound : before.ids.get? path with
      | none => rfl
      | some id =>
        have isNew := later.wereNew path late
        rw [binds.extends_.ids path id isBound] at isNew
        cases isNew
  areBound path member := by
    rcases List.mem_append.mp member with early | late
    · obtain ⟨id, isBound⟩ := binds.areBound path early
      exact ⟨id, later.extends_.ids path id isBound⟩
    · exact later.areBound path late
  noOthers path id isBound := by
    rcases later.noOthers path id isBound with late | isBound
    · exact .inl (List.mem_append_right first late)
    · exact (binds.noOthers path id isBound).imp_left (List.mem_append_left second)

end Binds

end Places

/-- Whether a file is there and its text can be read. -/
def FileTree.isReadable (files : FileTree) (path : String) : Bool :=
  match files.stat path with
  | .ok (.file (some _)) => true
  | _ => false

namespace Compile

open Lowering Source

variable {α β : Type}

/-! ## Files along a course -/

namespace Course.Along

variable {place : Places × String} {course : Course α} {compileIncluded : Includer}

/-- Where included files only add bindings, each call is made with at least the bindings of the
start. -/
theorem calls_extend (along : course.Along place)
    (grows : ∀ call : Call, call.bench.session.places.Extends
      (finalState (call.answer compileIncluded)).session.places) :
    ∀ call ∈ course.calls compileIncluded, place.1.Extends call.bench.session.places := by
  induction along with
  | ended _ => simp [calls]
  | @asks place call resume same _ ih =>
    subst same
    intro later member
    rw [calls] at member
    rcases List.mem_cons.mp member with rfl | member
    · exact .refl _
    · exact (grows call).trans (ih _ later member)

end Course.Along

/-! ## The calls of a compilation -/

/-- How far the compilation of a file has come: it was called, the file was bound and opened, or its
text is lowered. -/
inductive Stage where
  | called
  | opened
  | lowered
deriving DecidableEq

/-- A step of the compilation of a file: which file, how many compilations are under way with it,
and the stage that is reached. -/
structure Visit where
  source : String
  depth : Nat
  stage : Stage

/-- The steps of the compilations that a compilation comes to, its own first and then those of the
files it includes, in their order. -/
def visits : (waiting : List String) → (fuel : Nat) → (path id : String) → Session → List Visit
  | waiting, 0, path, _, session => [⟨session.files.absolute path, waiting.length + 1, .called⟩]
  | waiting, fuel + 1, path, id, session =>
    let source := session.files.absolute path
    let id := effectiveId source id
    ⟨source, waiting.length + 1, .called⟩ ::
    match session.registry.idOfFile? source, session.files.stat source with
    | none, .ok (.file none) => [⟨source, waiting.length + 1, .opened⟩]
    | none, .ok (.file (some content)) =>
      let course := Outline.body (Text.decode content)
        ⟨bound session source id, Frame.initial id source⟩
      ⟨source, waiting.length + 1, .opened⟩ :: ⟨source, waiting.length + 1, .lowered⟩ ::
        (course.calls (includer waiting source id fuel)).flatMap fun call =>
          visits (id :: waiting) fuel call.path call.id call.bench.session
    | _, _ => []

/-- The files that reach a stage in some steps. -/
def sources (stage : Stage) (visits : List Visit) : List String :=
  (visits.filter fun visit => visit.stage = stage).map Visit.source

theorem sources_append (stage : Stage) (first second : List Visit) :
    sources stage (first ++ second) = sources stage first ++ sources stage second := by
  simp [sources]

theorem sources_flatMap (stage : Stage) (calls : List α) (visitsOf : α → List Visit) :
    sources stage (calls.flatMap visitsOf) =
      calls.flatMap fun call => sources stage (visitsOf call) := by
  simp [sources, List.filter_flatMap, List.map_flatMap]

/-- A call is answered by the compilation of its file in its session. -/
theorem places_answer (waiting : List String) (source id : String) (fuel : Nat) (call : Call) :
    (finalState (call.answer (includer waiting source id fuel))).session.places =
      (finalState (file (id :: waiting) (Location.ofLine source call.line) fuel call.path call.id
        call.bench.session)).places := by
  unfold Call.answer
  rw [includer_eq]
  cases file (id :: waiting) (Location.ofLine source call.line) fuel call.path call.id
    call.bench.session <;> rfl

theorem includer_extends (waiting : List String) (source id : String) (fuel : Nat) (call : Call) :
    call.bench.session.places.Extends
      (finalState (call.answer (includer waiting source id fuel))).session.places := by
  rw [places_answer]
  have grown := file_grown (id :: waiting) (Location.ofLine source call.line) fuel call.path
    call.id call.bench.session
  exact ⟨grown.files, grown.registry.files⟩

/-- Lowering a text is answering the calls of its course. -/
theorem lowering_eq (waiting : List String) (fuel : Nat) (source id : String)
    (content : ByteArray) (bench : Workbench) : lowering waiting fuel source id content bench =
      (Outline.body (Text.decode content) bench).answered (includer waiting source id fuel) :=
  (Outline.Sketches.body (Text.decode content)).outlines (includer waiting source id fuel) bench

/-! ## Once -/

variable {waiting : List String} {fuel : Nat} {session : Session}

/-- The calls of a run bind what the compilations of their files bind. -/
theorem Course.Along.binds {id : String} {course : Course α} {place : Places × String}
    (source : String)
    (compiles : ∀ (includedAt : Location) (path includedId : String) (session : Session),
      session.places.Binds
        (finalState (file (id :: waiting) includedAt fuel path includedId session)).places
        (sources .opened (visits (id :: waiting) fuel path includedId session)))
    (along : course.Along place) :
    place.1.Binds (finalState (course.answered (includer waiting source id fuel))).session.places
      ((course.calls (includer waiting source id fuel)).flatMap fun call =>
        sources .opened (visits (id :: waiting) fuel call.path call.id call.bench.session)) := by
  induction along with
  | @ended place result same =>
    subst same
    exact .nothing _
  | @asks place call resume same _ ih =>
    subst same
    have first := compiles (Location.ofLine source call.line) call.path call.id
      call.bench.session
    rw [← places_answer waiting source id fuel call] at first
    rw [answered, calls, List.flatMap_cons]
    exact first.append (ih _)

theorem bound_binds {source : String} (id : String)
    (isNew : session.registry.idOfFile? source = none) :
    session.places.Binds (bound session source id).places [source] where
  extends_ := by
    refine ⟨rfl, fun path other isBound => ?_⟩
    have different : path ≠ source := by
      rintro rfl
      rw [Registry.idOfFile?] at isNew
      rw [Session.places, isNew] at isBound
      cases isBound
    simpa [bound, Session.places, Registry.recordFile, different] using isBound
  distinct := List.nodup_singleton source
  wereNew path member := by
    rw [List.mem_singleton.mp member]
    exact isNew
  areBound path member := by
    rw [List.mem_singleton.mp member]
    exact ⟨id, idOfFile?_bound session source id⟩
  noOthers path other isBound := by
    by_cases same : path = source
    · exact .inl (List.mem_singleton.mpr same)
    · right
      simpa [bound, Session.places, Registry.recordFile, same] using isBound

/-- A compilation opens different files, which were not bound before and are bound after it. -/
theorem visits_bind (fuel : Nat) (waiting : List String) (includedAt : Location)
    (path id : String) (session : Session) :
    session.places.Binds (finalState (file waiting includedAt fuel path id session)).places
      (sources .opened (visits waiting fuel path id session)) := by
  induction fuel generalizing waiting includedAt path id session with
  | zero => exact .nothing _
  | succ fuel ih =>
    have outcome := file_outcome waiting includedAt fuel path id session
    generalize file waiting includedAt (fuel + 1) path id session = result at outcome
    rw [visits]
    generalize session.files.absolute path = source at outcome ⊢
    generalize effectiveId source id = name at outcome ⊢
    -- What is bound while the text is lowered, whether it ends well or not.
    have lowers : ∀ content : ByteArray, session.registry.idOfFile? source = none →
        session.files.stat source = .ok (.file content) →
        session.places.Binds
          (finalState (lowering waiting fuel source name content
            ⟨bound session source name, Frame.initial name source⟩)).session.places
          (source :: sources .opened
            (((Outline.body (Text.decode content)
              ⟨bound session source name, Frame.initial name source⟩).calls
                (includer waiting source name fuel)).flatMap fun call =>
              visits (name :: waiting) fuel call.path call.id call.bench.session)) := by
      intro content isNew readable
      have along := (Outline.Sketches.body (Text.decode content)).steady
        ⟨bound session source name, Frame.initial name source⟩
      have binds := along.binds source (ih (name :: waiting))
      rw [← lowering_eq] at binds
      rw [sources_flatMap]
      exact (bound_binds name isNew).append binds
    cases outcome with
    | missing unreadable =>
      split
      · rename_i readable
        exact (unreadable _ readable).elim
      · rename_i readable
        exact (unreadable _ readable).elim
      · exact .nothing _
    | circular isBound _ =>
      simp only [isBound]
      exact .nothing _
    | endless isBound _ =>
      simp only [isBound]
      exact .nothing _
    | duplicate isBound _ marked =>
      simp only [isBound]
      obtain ⟨target, -, rfl⟩ := Option.map_eq_some_iff.mp marked
      exact .nothing _
    | unreadable isNew unread =>
      simp only [isNew, unread]
      exact bound_binds name isNew
    | @failed content failure bench isNew readable ended =>
      have binds := lowers content isNew readable
      rw [ended] at binds
      simp only [isNew, readable]
      exact binds
    | @compiled content bench log isNew readable ended =>
      have binds := lowers content isNew readable
      rw [ended] at binds
      simp only [isNew, readable]
      exact binds

/-- The opened files whose text can be read are those whose text is lowered. -/
theorem visits_lowered (fuel : Nat) (waiting : List String) (path id : String) (session : Session) :
    sources .lowered (visits waiting fuel path id session) =
      (sources .opened (visits waiting fuel path id session)).filter session.files.isReadable := by
  induction fuel generalizing waiting path id session with
  | zero => rfl
  | succ fuel ih =>
    rw [visits]
    generalize session.files.absolute path = source
    generalize effectiveId source id = name
    split
    · rename_i unread
      simp [sources, FileTree.isReadable, unread]
    · rename_i content _ readable
      have isReadable : session.files.isReadable source = true := by
        simp [FileTree.isReadable, readable]
      change source :: sources .lowered (List.flatMap _ _) =
        (source :: sources .opened (List.flatMap _ _)).filter session.files.isReadable
      rw [List.filter_cons_of_pos isReadable, sources_flatMap, sources_flatMap,
        List.filter_flatMap]
      refine congrArg (source :: ·) (List.flatMap_congr fun call made => ?_)
      have grown : (bound session source name).places.Extends call.bench.session.places :=
        ((Outline.Sketches.body _).steady _).calls_extend (includer_extends _ _ _ _) call made
      have sameFiles : call.bench.session.files = session.files := grown.files
      rw [← sameFiles]
      exact ih _ _ _ _
    · rfl

/-! ## Depth -/

/-- The files that wait for each other: readable, different, and bound since their texts were
begun. -/
structure Stacked (places : Places) (waiting sources : List String) : Prop where
  sameLength : sources.length = waiting.length
  distinct : sources.Nodup
  readable : ∀ source ∈ sources,
    Path.IsClean source ∧ ∃ content, places.files.stat source = .ok (.file content)
  areBound : ∀ source ∈ sources, ∃ id, places.ids.get? source = some id

namespace Stacked

variable {places later : Places} {waiting sources : List String}

theorem nothing (places : Places) : Stacked places [] [] :=
  ⟨rfl, List.nodup_nil, nofun, nofun⟩

theorem extended (stacked : Stacked places waiting sources) (grows : places.Extends later) :
    Stacked later waiting sources where
  sameLength := stacked.sameLength
  distinct := stacked.distinct
  readable := by
    rw [grows.files]
    exact stacked.readable
  areBound source member := by
    obtain ⟨id, isBound⟩ := stacked.areBound source member
    exact ⟨id, grows.ids source id isBound⟩

theorem push {session : Session} {source : String} {content : ByteArray} (id : String)
    (stacked : Stacked session.places waiting sources) (isClean : Path.IsClean source)
    (isNew : session.registry.idOfFile? source = none)
    (readable : session.files.stat source = .ok (.file content)) :
    Stacked (bound session source id).places (id :: waiting) (source :: sources) where
  sameLength := by simp [stacked.sameLength]
  distinct := by
    refine List.nodup_cons.mpr ⟨fun member => ?_, stacked.distinct⟩
    obtain ⟨other, isBound⟩ := stacked.areBound source member
    cases isNew.symm.trans isBound
  readable := List.forall_mem_cons.mpr ⟨⟨isClean, content, readable⟩, stacked.readable⟩
  areBound := List.forall_mem_cons.mpr ⟨⟨id, idOfFile?_bound session source id⟩,
    (stacked.extended (bound_binds id isNew).extends_).areBound⟩

theorem length_le (stacked : Stacked places waiting sources) :
    waiting.length ≤ places.files.files.length := by
  rw [← stacked.sameLength]
  exact FileTree.length_le_files stacked.distinct stacked.readable

/-- Where a file waits, a call is made with the bindings of the waiting files. -/
theorem call {session : Session} {source id : String} {fuel : Nat} {content : ByteArray}
    {below : List String} {call : Call}
    (stacked : Stacked (bound session source id).places waiting sources)
    (made : call ∈ (Outline.body (Text.decode content)
      ⟨bound session source id, Frame.initial id source⟩).calls (includer below source id fuel)) :
    Stacked call.bench.session.places waiting sources := by
  have along := (Outline.Sketches.body (Text.decode content)).steady
    ⟨bound session source id, Frame.initial id source⟩
  exact stacked.extended (along.calls_extend (includer_extends _ _ _ _) call made)

end Stacked

/-- Calls are no deeper than the number of files, and one more. -/
theorem visits_depth (fuel : Nat) {sources : List String} (path id : String)
    (rooted : Path.isAbsolute session.files.current = true)
    (stacked : Stacked session.places waiting sources) :
    ∀ visit ∈ visits waiting fuel path id session,
      visit.depth ≤ session.files.files.length + 1 := by
  have atMost : waiting.length + 1 ≤ session.files.files.length + 1 :=
    Nat.succ_le_succ stacked.length_le
  induction fuel generalizing waiting sources path id session with
  | zero =>
    intro visit member
    rw [visits, List.mem_singleton] at member
    rw [member]
    exact atMost
  | succ fuel ih =>
    intro visit member
    rw [visits] at member
    have isClean : Path.IsClean (session.files.absolute path) :=
      Path.isClean_absolute rooted path
    generalize session.files.absolute path = source at member isClean
    generalize effectiveId source id = name at member
    split at member
    · rcases List.mem_cons.mp member with rfl | member
      · exact atMost
      · cases List.mem_singleton.mp member
        exact atMost
    · rename_i content isNew readable
      simp only [List.mem_cons] at member
      rcases member with rfl | rfl | rfl | member
      · exact atMost
      · exact atMost
      · exact atMost
      · obtain ⟨call, made, inner⟩ := List.mem_flatMap.mp member
        have pushed := (stacked.push name isClean isNew readable).call made
        have grown : (bound session source name).places.Extends call.bench.session.places :=
          ((Outline.Sketches.body _).steady _).calls_extend (includer_extends _ _ _ _) call made
        have sameFiles : call.bench.session.files = session.files := grown.files
        rw [← sameFiles]
        exact ih call.path call.id (sameFiles ▸ rooted) pushed
          (Nat.succ_le_succ pushed.length_le) visit inner
    · rw [List.mem_singleton.mp member]
      exact atMost

/-- Fuel matters to a compilation only through the lowering of a new file. -/
theorem file_congr {other : Nat} {path id : String} (includedAt : Location)
    (same : ∀ source name (content : ByteArray), source = session.files.absolute path →
      name = effectiveId source id → session.registry.idOfFile? source = none →
      session.files.stat source = .ok (.file content) → lowering waiting other source name content
          ⟨bound session source name, Frame.initial name source⟩ =
        lowering waiting fuel source name content
          ⟨bound session source name, Frame.initial name source⟩) :
    file waiting includedAt (other + 1) path id session =
      file waiting includedAt (fuel + 1) path id session := by
  rw [file_eq, file_eq]
  unfold conclusion
  split
  · rename_i content readable
    split
    · rfl
    · rename_i isNew
      cases content with
      | none => rfl
      | some content => simp only [same _ _ content rfl rfl isNew readable]
  · rfl

/-- With fuel for every file that does not wait, more fuel changes nothing. -/
theorem file_enough_fuel (more : Nat) {sources : List String} (includedAt : Location)
    (path id : String) (rooted : Path.isAbsolute session.files.current = true)
    (stacked : Stacked session.places waiting sources)
    (enough : session.files.files.length < waiting.length + fuel) :
    file waiting includedAt (fuel + more) path id session =
      file waiting includedAt fuel path id session := by
  induction fuel generalizing waiting sources includedAt path id session with
  | zero =>
    have atMost := stacked.length_le
    simp only [Session.places] at atMost
    omega
  | succ fuel ih =>
    rw [Nat.add_right_comm]
    refine file_congr includedAt fun source name content isSource _ isNew readable => ?_
    have isClean : Path.IsClean source := isSource ▸ Path.isClean_absolute rooted path
    rw [lowering_eq, lowering_eq]
    refine Course.answered_congr fun call made => ?_
    have pushed := (stacked.push name isClean isNew readable).call made
    have grown : (bound session source name).places.Extends call.bench.session.places :=
      ((Outline.Sketches.body _).steady _).calls_extend (includer_extends _ _ _ _) call made
    have sameFiles : call.bench.session.files = session.files := grown.files
    have answers := ih (Location.ofLine source call.line) call.path call.id
      (sameFiles ▸ rooted) pushed (by rw [sameFiles, List.length_cons]; omega)
    rw [Call.answer, Call.answer, includer_eq, includer_eq, answers]

end Compile

end Kronk
