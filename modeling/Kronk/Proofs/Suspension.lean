import Kronk.Proofs.Nesting

/-!
# Suspended modules

A compiler has one set of fields for the module in the making: the module with its code, its scopes,
the place where code is appended, the reader, and whether the file is included.  Compiling a file
overwrites them.  An include statement puts them aside on a stack before it compiles its file and
takes them back afterwards; `Compiler` is that machine, and it records the steps of every
compilation.

The fields are restored by every include statement.  The machine compiles as `Compile.file` does, so
what is recorded is what happens: over any number of entry files, the text of a file is lowered at
most once, and no call is deeper than the number of files and one more.
-/

namespace Kronk

open Lowering Source Compile

/-- A module in the making with its code.  Where code is appended is kept apart. -/
structure Current where
  module : Module
  draft : Draft
  fileName : IR.Value
  placeless : draft.place = ⟨0, 0⟩

/-- The fields that an include statement puts aside. -/
structure Desk where
  current : Option Current := none
  scopes : List Scope := []
  place : Option Place := none
  parser : Option Reading := none
  includeMode : Bool := false

structure Compiler where
  session : Session
  desk : Desk := {}
  suspended : List Desk := []
  visits : List Visit := []

/-- How a computation ends, with another state. -/
def ended {σ τ α : Type} (state : τ) :
    EStateM.Result Failure σ α → EStateM.Result Failure τ α
  | .ok value _ => .ok value state
  | .error failure _ => .error failure state

namespace Compiler

abbrev Run := EStateM Failure Compiler

def record (compiler : Compiler) (source : String) (depth : Nat) (stage : Stage) : Compiler :=
  { compiler with visits := compiler.visits ++ [⟨source, depth, stage⟩] }

/-- The compiler with a bench in its fields. -/
def hold (compiler : Compiler) (bench : Workbench) : Compiler :=
  { compiler with
    session := bench.session
    desk := { compiler.desk with
      current := some ⟨bench.frame.module, { bench.frame.draft with place := ⟨0, 0⟩ },
        bench.frame.fileName, rfl⟩
      scopes := bench.frame.scopes
      place := some bench.frame.draft.place } }

def bench? (compiler : Compiler) : Option Workbench := do
  let current ← compiler.desk.current
  let place ← compiler.desk.place
  let frame := ⟨current.module, { current.draft with place }, compiler.desk.scopes,
    current.fileName⟩
  return ⟨compiler.session, frame⟩

def suspend (compiler : Compiler) : Compiler :=
  { compiler with
    desk := { includeMode := compiler.desk.includeMode }
    suspended := compiler.desk :: compiler.suspended }

def resume (compiler : Compiler) : Compiler :=
  match compiler.suspended with
  | [] => compiler
  | desk :: suspended => { compiler with desk, suspended }

/-- The ids of the suspended modules. -/
def waiting (compiler : Compiler) : List String :=
  compiler.suspended.filterMap fun desk => desk.current.map fun current => current.module.id

def nothingCurrent : Failure :=
  .panic "runtime error: invalid memory address or nil pointer dereference"

section Statements

variable (compile : String → String → Nat → Run String)

/-- Compiles an included file between putting the fields aside and taking them back. -/
def including (call : Call) : Run Unit := fun compiler =>
  let suspended := (compiler.hold call.bench).suspend
  match compile call.path call.id call.line { suspended with desk.includeMode := true } with
  | .ok _ after => .ok () after.resume
  | .error failure after => .error failure after.resume

/-- Takes the course of a lowering, which goes on after each call from what the fields hold. -/
def follow : Course Unit → Run Unit
  | .ended result, compiler => ended (compiler.hold (finalState result)) result
  | .asks call next, compiler =>
    let outcome := including compile call compiler
    let after := finalState outcome
    match after.bench? with
    | none => .error nothingCurrent after
    | some bench => follow (next (ended bench outcome)) after

def lower (outline : Outline Unit) : Run Unit := fun compiler =>
  match compiler.bench? with
  | none => .error nothingCurrent compiler
  | some bench => follow compile (outline bench) compiler

/-- Reads and lowers one statement after the other. -/
def pump : (fuel : Nat) → Run Unit
  | 0, compiler => .error .outOfFuel compiler
  | fuel + 1, compiler =>
    match compiler.bench?, compiler.desk.parser with
    | some bench, some reading =>
      let read := readNext reading bench
      let after := finalState read
      let bench := finalState (Outline.recorded after bench)
      let advanced := { compiler with desk.parser := some after }
      match read with
      | .error failure _ => .error failure (advanced.hold bench)
      | .ok none _ => .ok () (advanced.hold bench)
      | .ok (some written) _ =>
        let bench := finalState (Outline.dumped written bench)
        match lower compile (.checked (.statement written)) (advanced.hold bench) with
        | .error failure after => .error failure after
        | .ok _ after => pump fuel after
    | _, _ => .error nothingCurrent compiler

def body (text : String) : Run Unit := fun compiler =>
  match compiler.bench? with
  | none => .error nothingCurrent compiler
  | some bench =>
    let module := bench.frame.module
    let scan := Token.scan text
    match Reading.start ⟨module.file, module, bench.session.registry⟩ scan {} with
    | .error failure _ => .error failure { compiler with desk.parser := none }
    | .ok _ reading =>
      pump compile (scan.tokens.length + 1) { compiler with desk.parser := some reading }

end Statements

/-- Compiles a file; `depth` is the number of compilations that are under way with this one. -/
def fileWith (compile : String → String → String → Nat → Run String) (depth : Nat)
    (path id : String) (includedAt : Location) : Run String := fun compiler =>
  let session := compiler.session
  let source := session.files.absolute path
  let id := effectiveId source id
  let called := compiler.record source depth .called
  match session.files.stat source with
  | .ok (.file content) =>
    match session.registry.idOfFile? source with
    | some first =>
      if compiler.desk.includeMode && compiler.waiting.contains first then
        .error (includeFailure includedAt "Circular dependency detected!! Aborting..") called
      else
        match session.registry.addDuplicate? id first with
        | none => .error .endless called
        | some registry =>
          let marked := { session with registry }
          .ok id { called with
            session := marked.trace (id ++ " is already compiled as " ++ first) }
    | none =>
      let bench := ⟨bound session source id, Frame.initial id source⟩
      let opened := { called with session := bench.session }.record source depth .opened
      match content with
      | none => .error (unreadable path source) opened
      | some content =>
        let begun := (opened.hold bench).record source depth .lowered
        match body (compile source) (Text.decode content) begun with
        | .error failure after => .error failure after
        | .ok _ after =>
          match after.bench? with
          | none => .error nothingCurrent after
          | some bench =>
            let module := bench.frame.finish after.desk.includeMode
            let registry := bench.session.registry.register module
            let registered := { bench.session with registry }
            .ok id { after with
              session := registered.trace ("Compile Sucess!! (" ++ id ++ ")")
              desk.scopes := [] }
  | _ => .error (includeFailure includedAt ("The file '" ++ path ++ "' doesn't exist !! ")) called

def file : (fuel depth : Nat) → (path id : String) → (includedAt : Location) → Run String
  | 0, depth, path, _, _ => fun compiler =>
    .error .outOfFuel (compiler.record (compiler.session.files.absolute path) depth .called)
  | fuel + 1, depth, path, id, includedAt =>
    fileWith (fun source path id line =>
      file fuel (depth + 1) path id (Location.ofLine source line)) depth path id includedAt

/-- How a file at a depth compiles the files that it includes. -/
abbrev includer (fuel depth : Nat) (source : String) : String → String → Nat → Run String :=
  fun path id line => file fuel (depth + 1) path id (Location.ofLine source line)

/-! ## The fields are restored -/

variable {compile : String → String → Nat → Run String} {compiler : Compiler}

/-- Whatever comes of a compilation, it leaves the suspended fields and the mode as they were. -/
structure Kept (before after : Compiler) : Prop where
  suspended : after.suspended = before.suspended
  includeMode : after.desk.includeMode = before.desk.includeMode

theorem Kept.refl (compiler : Compiler) : Kept compiler compiler := ⟨rfl, rfl⟩

theorem Kept.trans {before between after : Compiler} (first : Kept before between)
    (second : Kept between after) : Kept before after :=
  ⟨second.suspended.trans first.suspended, second.includeMode.trans first.includeMode⟩

def Keeps (compile : String → String → Nat → Run String) : Prop :=
  ∀ path id line compiler, Kept compiler (finalState (compile path id line compiler))

theorem resume_eq {desk : Desk} {suspended : List Desk}
    (stacked : compiler.suspended = desk :: suspended) :
    compiler.resume = { compiler with desk, suspended } := by
  unfold resume
  rw [stacked]

section Fields

variable (keeps : Keeps compile)

include keeps

/-- After an included file was compiled, the fields hold what they held before. -/
theorem including_final (call : Call) (compiler : Compiler) :
    ∃ session visits, finalState (including compile call compiler) =
      { compiler.hold call.bench with session, visits } := by
  have kept := keeps call.path call.id call.line
    { (compiler.hold call.bench).suspend with desk.includeMode := true }
  unfold including
  dsimp only
  generalize compile call.path call.id call.line _ = outcome at kept
  have resumed := resume_eq kept.suspended
  cases outcome with
  | ok _ after => exact ⟨_, _, resumed⟩
  | error failure after => exact ⟨_, _, resumed⟩

/-- A course leaves the reader where it was, too. -/
theorem follow_keeps (course : Course Unit) (compiler : Compiler) :
    Kept compiler (finalState (follow compile course compiler)) ∧
      (finalState (follow compile course compiler)).desk.parser = compiler.desk.parser := by
  induction course generalizing compiler with
  | ended result => cases result <;> exact ⟨⟨rfl, rfl⟩, rfl⟩
  | asks call next ih =>
    obtain ⟨session, visits, final⟩ := including_final keeps call compiler
    rw [follow]
    simp only [final]
    obtain ⟨kept, parser⟩ := ih _ { compiler.hold call.bench with session, visits }
    exact ⟨⟨kept.suspended, kept.includeMode⟩, parser⟩

theorem lower_keeps (outline : Outline Unit) (compiler : Compiler) :
    Kept compiler (finalState (lower compile outline compiler)) ∧
      (finalState (lower compile outline compiler)).desk.parser = compiler.desk.parser := by
  unfold lower
  cases compiler.bench? with
  | none => exact ⟨.refl _, rfl⟩
  | some bench => exact follow_keeps keeps _ compiler

theorem pump_keeps (fuel : Nat) (compiler : Compiler) :
    Kept compiler (finalState (pump compile fuel compiler)) := by
  induction fuel generalizing compiler with
  | zero => exact .refl _
  | succ fuel ih =>
    rw [pump]
    split
    · dsimp only
      split
      · exact ⟨rfl, rfl⟩
      · exact ⟨rfl, rfl⟩
      · rename_i written _ _
        generalize started : Compiler.hold _ _ = advanced
        have advances : Kept compiler advanced := started ▸ ⟨rfl, rfl⟩
        have lowers := (lower_keeps keeps (.checked (.statement written)) advanced).1
        generalize lower compile _ advanced = outcome at lowers
        cases outcome with
        | error failure after => exact advances.trans lowers
        | ok _ after => exact (advances.trans lowers).trans (ih after)
    · exact .refl _

theorem body_keeps (text : String) (compiler : Compiler) :
    Kept compiler (finalState (body compile text compiler)) := by
  unfold body
  split
  · exact .refl _
  · dsimp only
    split
    · exact ⟨rfl, rfl⟩
    · rename_i reading _
      have kept := pump_keeps keeps ((Token.scan text).tokens.length + 1)
        { compiler with desk.parser := some reading }
      exact ⟨kept.suspended, kept.includeMode⟩

end Fields

theorem fileWith_keeps {compile : String → String → String → Nat → Run String}
    (keeps : ∀ source, Keeps (compile source)) (depth : Nat) (path id : String)
    (includedAt : Location) (compiler : Compiler) :
    Kept compiler (finalState (fileWith compile depth path id includedAt compiler)) := by
  unfold fileWith
  dsimp only
  generalize compiler.session.files.absolute path = source
  split
  · split
    · split
      · exact ⟨rfl, rfl⟩
      · split <;> exact ⟨rfl, rfl⟩
    · split
      · exact ⟨rfl, rfl⟩
      · rename_i content _
        generalize started : record (hold _ _) _ _ _ = begun
        have begins : Kept compiler begun := started ▸ ⟨rfl, rfl⟩
        have kept := begins.trans (body_keeps (keeps source) (Text.decode content) begun)
        generalize body _ _ begun = outcome at kept
        cases outcome with
        | error failure after => exact kept
        | ok _ after =>
          dsimp only
          split
          · exact kept
          · exact ⟨kept.suspended, kept.includeMode⟩
  · exact ⟨rfl, rfl⟩

/-- However a compilation ends and whatever it includes, every field that was put aside is taken
back. -/
theorem file_keeps (fuel depth : Nat) (path id : String) (includedAt : Location)
    (compiler : Compiler) :
    Kept compiler (finalState (file fuel depth path id includedAt compiler)) := by
  induction fuel generalizing depth path id includedAt compiler with
  | zero => exact ⟨rfl, rfl⟩
  | succ fuel ih => exact fileWith_keeps (fun source path id line => ih _ _ _ _) _ _ _ _ _

/-- A bench in the fields is the compiler itself, whatever its session and its module are. -/
theorem hold_bench {bench : Workbench} (holds : compiler.bench? = some bench) :
    ∃ current, compiler.desk.current = some current ∧ bench.frame.module = current.module ∧
      ∀ session module, compiler.hold ⟨session, { bench.frame with module }⟩ =
        { compiler with session, desk.current := some { current with module } } := by
  obtain ⟨session, ⟨current, scopes, place, parser, includeMode⟩, suspended, visits⟩ := compiler
  cases current with
  | none => cases holds
  | some current =>
  cases place with
  | none => cases holds
  | some place =>
  cases holds
  refine ⟨current, rfl, rfl, fun session module => ?_⟩
  obtain
    ⟨own, ⟨structures, texts, functions, labels, temporaries, strays, other⟩, name, placeless⟩ :=
    current
  cases placeless
  rfl

theorem session_of_bench? {bench : Workbench} (holds : compiler.bench? = some bench) :
    compiler.session = bench.session := by
  obtain ⟨current, -, holds⟩ := Option.bind_eq_some_iff.mp holds
  obtain ⟨place, -, holds⟩ := Option.bind_eq_some_iff.mp holds
  cases holds
  rfl

theorem inclusion_alone (written : Include) (bench : Workbench) : ∃ session,
    Lowering.inclusion (fun _ _ _ => pure ()) written bench =
        .ok () (withDependency ⟨session, bench.frame⟩ written.id) ∨
      ∃ failure, Lowering.inclusion (fun _ _ _ => pure ()) written bench =
        .error failure ⟨session, bench.frame⟩ := by
  have outcome := inclusion_cases (fun _ _ _ => pure ()) written bench
  generalize Lowering.inclusion _ written bench = result at outcome
  cases outcome with
  | refused => exact ⟨_, .inr ⟨_, rfl⟩⟩
  | runtime _ _ _ => exact ⟨_, .inl rfl⟩
  | failed _ failed => cases failed
  | included _ compiled =>
    cases compiled
    exact ⟨_, .inl rfl⟩

/-- An include statement gives the module an alias, or leaves it as it is. -/
theorem follow_inclusion (keeps : Keeps compile) (written : Include) (bench : Workbench)
    (compiler : Compiler) : ∃ session visits,
      follow compile (Outline.inclusion written bench) compiler = .ok ()
        ({ compiler with visits }.hold (withDependency ⟨session, bench.frame⟩ written.id)) ∨
      ∃ failure, follow compile (Outline.inclusion written bench) compiler =
        .error failure ({ compiler with visits }.hold ⟨session, bench.frame⟩) := by
  unfold Outline.inclusion
  obtain ⟨session, alone⟩ := inclusion_alone written bench
  have refused : ∃ session visits, follow compile
      (.ended (Lowering.inclusion (fun _ _ _ => pure ()) written bench)) compiler =
        .ok () ({ compiler with visits }.hold (withDependency ⟨session, bench.frame⟩ written.id)) ∨
      ∃ failure, follow compile
        (.ended (Lowering.inclusion (fun _ _ _ => pure ()) written bench)) compiler =
          .error failure ({ compiler with visits }.hold ⟨session, bench.frame⟩) := by
    refine ⟨session, compiler.visits, ?_⟩
    rw [follow]
    rcases alone with succeeds | ⟨failure, fails⟩
    · rw [succeeds]
      exact .inl rfl
    · rw [fails]
      exact .inr ⟨failure, rfl⟩
  cases written.target with
  | runtime name => exact refused
  | file path =>
    dsimp only
    split
    · exact refused
    · obtain ⟨session, visits, final⟩ :=
        including_final keeps (Call.of written path bench) compiler
      rw [follow]
      simp only [final]
      cases including compile (Call.of written path bench) compiler with
      | ok _ after => exact ⟨_, visits, .inl rfl⟩
      | error failure after => exact ⟨session, visits, .inr ⟨failure, rfl⟩⟩

/-! ## The machine compiles as files are compiled -/

/-- What is seen of the compiler after an outcome is what another computation comes to, and some
steps were recorded. -/
structure Shadows {τ α : Type} (view : Compiler → Option τ) (compiler : Compiler)
    (steps : List Visit) (result : EStateM.Result Failure τ α)
    (outcome : EStateM.Result Failure Compiler α) : Prop where
  same : outcome = ended (finalState outcome) result
  state : view (finalState outcome) = some (finalState result)
  visits : (finalState outcome).visits = compiler.visits ++ steps

variable {waiting : List String} {fuel : Nat} {source id : String}

/-- The way of compiling included files does what the waiting file under `id` asks for. -/
def Compiles (compile : String → String → Nat → Run String) (waiting : List String) (fuel : Nat)
    (source id : String) : Prop :=
  ∀ path name line (compiler : Compiler), compiler.desk.includeMode = true →
    compiler.waiting = id :: waiting →
    Shadows (fun compiler => some compiler.session) compiler
      (Compile.visits (id :: waiting) fuel path name compiler.session)
      (Compile.file (id :: waiting) (Location.ofLine source line) fuel path name compiler.session)
      (compile path name line compiler)

/-- The steps of the calls of a run. -/
def callVisits (waiting : List String) (fuel : Nat) (source id : String) (course : Course Unit) :
    List Visit :=
  (course.calls (Compile.includer waiting source id fuel)).flatMap fun call =>
    Compile.visits (id :: waiting) fuel call.path call.id call.bench.session

theorem ended_ended {ρ σ τ α : Type} (first : σ) (second : τ)
    (result : EStateM.Result Failure ρ α) :
    ended second (ended first result) = ended second result := by
  cases result <;> rfl

theorem ended_final {σ α : Type} (result : EStateM.Result Failure σ α) :
    ended (finalState result) result = result := by
  cases result <;> rfl

theorem answer_frame (waiting : List String) (fuel : Nat) (source id : String) (call : Call) :
    (finalState (call.answer (Compile.includer waiting source id fuel))).frame =
      call.bench.frame := by
  unfold Call.answer
  rw [includer_eq]
  cases Compile.file (id :: waiting) (Location.ofLine source call.line) fuel call.path call.id
    call.bench.session <;> rfl

/-- The module in the making is the same after a run. -/
theorem answered_id (waiting : List String) (fuel : Nat) (source id : String)
    {place : Places × String} {course : Course Unit} (along : course.Along place) :
    (finalState (course.answered
      (Compile.includer waiting source id fuel))).frame.module.id = place.2 := by
  induction along with
  | ended same =>
    rw [← same]
    rfl
  | @asks place call next same _ ih =>
    rw [Course.answered, ih, standing, answer_frame, ← same]
    rfl

section Shadows

variable (keeps : Keeps compile) (compiles : Compiles compile waiting fuel source id)

include keeps compiles

theorem including_shadows (call : Call) (sameId : call.bench.frame.module.id = id)
    (waits : compiler.waiting = waiting) :
    Shadows bench? compiler
      (Compile.visits (id :: waiting) fuel call.path call.id call.bench.session)
      (call.answer (Compile.includer waiting source id fuel))
      (including compile call compiler) := by
  have suspended : ({ (compiler.hold call.bench).suspend with
      desk.includeMode := true } : Compiler).waiting = id :: waiting := by
    rw [← sameId, ← waits]
    rfl
  have shadows := compiles call.path call.id call.line _ rfl suspended
  have kept := (keeps call.path call.id call.line
    { (compiler.hold call.bench).suspend with desk.includeMode := true }).suspended
  unfold Call.answer including
  rw [includer_eq]
  dsimp only at shadows ⊢
  generalize compile call.path call.id call.line _ = outcome at shadows kept
  change Shadows _ _ _ (Compile.file _ _ _ _ _ call.bench.session) outcome at shadows
  obtain ⟨same, state, visits⟩ := shadows
  have resumed := resume_eq kept
  generalize Compile.file _ _ _ _ _ call.bench.session = result at same state
  cases outcome with
  | ok value after =>
    cases result with
    | error failure session => cases same
    | ok other session =>
      cases state
      refine ⟨rfl, ?_, ?_⟩
      · exact congrArg bench? resumed
      · exact (congrArg Compiler.visits resumed).trans visits
  | error failure after =>
    cases result with
    | ok other session => cases same
    | error other session =>
      cases same
      cases state
      refine ⟨rfl, ?_, ?_⟩
      · exact congrArg bench? resumed
      · exact (congrArg Compiler.visits resumed).trans visits

theorem follow_shadows {place : Places × String} {course : Course Unit} (along : course.Along place)
    (sameId : place.2 = id) (waits : compiler.waiting = waiting) :
    Shadows bench? compiler (callVisits waiting fuel source id course)
      (course.answered (Compile.includer waiting source id fuel))
      (follow compile course compiler) := by
  induction along generalizing compiler with
  | @ended place result _ => cases result <;> exact ⟨rfl, rfl, (List.append_nil _).symm⟩
  | @asks place call next same _ ih =>
    have module : call.bench.frame.module.id = id := by
      rw [← sameId, ← same]
      rfl
    have shadows := including_shadows keeps compiles call module waits
    obtain ⟨session, visits, final⟩ := including_final keeps call compiler
    rw [follow, Course.answered, callVisits, Course.calls, List.flatMap_cons]
    simp only [shadows.state]
    generalize including compile call compiler = outcome at shadows final
    have answers : ended (finalState (call.answer (Compile.includer waiting source id fuel)))
        outcome = call.answer (Compile.includer waiting source id fuel) := by
      rw [shadows.same, ended_ended, ended_final]
    have later := ih (call.answer (Compile.includer waiting source id fuel))
      (by rw [standing, answer_frame]; exact module)
      (show (finalState outcome).waiting = waiting from final ▸ waits)
    rw [answers]
    refine ⟨later.same, later.state, ?_⟩
    rw [later.visits, shadows.visits, List.append_assoc, callVisits]

theorem lower_shadows {outline : Outline Unit} (steady : outline.Steady) {bench : Workbench}
    (holds : compiler.bench? = some bench) (sameId : bench.frame.module.id = id)
    (waits : compiler.waiting = waiting) :
    Shadows bench? compiler (callVisits waiting fuel source id (outline bench))
      ((outline bench).answered (Compile.includer waiting source id fuel))
      (lower compile outline compiler) := by
  unfold lower
  simp only [holds]
  exact follow_shadows keeps compiles (steady bench) sameId waits

theorem pump_shadows (steps : Nat) {reading : Reading} {bench : Workbench}
    (holds : compiler.bench? = some bench) (parses : compiler.desk.parser = some reading)
    (sameId : bench.frame.module.id = id) (waits : compiler.waiting = waiting) :
    Shadows bench? compiler (callVisits waiting fuel source id (Outline.file steps reading bench))
      ((Outline.file steps reading bench).answered (Compile.includer waiting source id fuel))
      (pump compile steps compiler) := by
  induction steps generalizing compiler reading bench with
  | zero => exact ⟨rfl, holds, (List.append_nil _).symm⟩
  | succ steps ih =>
    rw [pump]
    simp only [holds, parses]
    cases read : readNext reading bench with
    | error failure after =>
      have course : Outline.file (steps + 1) reading bench =
          .ended (.error failure (finalState (Outline.recorded after bench))) := by
        simp only [Outline.file, bind, Course.bind, Outline.of, get_apply, read]
        rfl
      rw [course]
      exact ⟨rfl, rfl, (List.append_nil _).symm⟩
    | ok found after =>
    cases found with
    | none =>
      have course : Outline.file (steps + 1) reading bench =
          .ended (.ok () (finalState (Outline.recorded after bench))) := by
        simp only [Outline.file, bind, Course.bind, Outline.of, get_apply, read]
        rfl
      rw [course]
      exact ⟨rfl, rfl, (List.append_nil _).symm⟩
    | some written =>
      let noted := finalState (Outline.dumped written (finalState (Outline.recorded after bench)))
      have course : Outline.file (steps + 1) reading bench =
          (Outline.checked (Outline.statement written) noted).bind fun _ bench =>
            Outline.file steps after bench := by
        simp only [Outline.file, bind, Course.bind, Outline.of, get_apply, read]
        rfl
      rw [course, callVisits, Course.calls_bind, Course.answered_bind, List.flatMap_append]
      have steady := (Outline.Sketches.statement written).checked.steady
      have noticed : noted.frame.module.id = id := sameId
      dsimp only [finalState]
      generalize started : Compiler.hold _ _ = advanced
      have stands : advanced.bench? = some noted := started ▸ rfl
      have waited : advanced.waiting = waiting := by
        rw [← waits, ← started]
        rfl
      have shadows := lower_shadows keeps compiles steady stands noticed waited
      have finishes := answered_id waiting fuel source id (steady noted)
      obtain ⟨kept, parser⟩ := lower_keeps keeps (.checked (.statement written)) advanced
      generalize lower compile _ advanced = outcome at shadows kept parser
      rw [callVisits] at shadows
      generalize (Outline.checked (Outline.statement written) noted).answered _ = result
        at shadows finishes
      obtain ⟨ends, state, visits⟩ := shadows
      have recorded : advanced.visits = compiler.visits := started ▸ rfl
      cases result with
      | error failure final =>
        rw [ends]
        refine ⟨rfl, state, ?_⟩
        rw [List.flatMap_nil, List.append_nil, ← recorded]
        exact visits
      | ok _ next =>
        rw [ends]
        have parsed : (finalState outcome).desk.parser = some after := by
          rw [parser, ← started]
          rfl
        have waitsOn : (finalState outcome).waiting = waiting := by
          unfold Compiler.waiting at waited ⊢
          rw [kept.suspended, waited]
        have later := ih state parsed (finishes.trans noticed) waitsOn
        refine ⟨later.same, later.state, ?_⟩
        rw [← List.append_assoc, ← recorded, ← visits]
        exact later.visits

theorem body_shadows (text : String) {bench : Workbench} (holds : compiler.bench? = some bench)
    (sameId : bench.frame.module.id = id) (waits : compiler.waiting = waiting) :
    Shadows bench? compiler (callVisits waiting fuel source id (Outline.body text bench))
      ((Outline.body text bench).answered (Compile.includer waiting source id fuel))
      (body compile text compiler) := by
  unfold body
  simp only [holds]
  cases started : Reading.start ⟨bench.frame.module.file, bench.frame.module,
      bench.session.registry⟩ (Token.scan text) {} with
  | error failure reading =>
    have course : Outline.body text bench = .ended (.error failure bench) := by
      simp only [Outline.body, bind, Course.bind, Outline.of, get_apply, started]
      rfl
    rw [course]
    exact ⟨rfl, holds, (List.append_nil _).symm⟩
  | ok _ reading =>
    have course : Outline.body text bench =
        Outline.file ((Token.scan text).tokens.length + 1) reading bench := by
      simp only [Outline.body, bind, Course.bind, Outline.of, get_apply, started]
    rw [course]
    have stands : ({ compiler with desk.parser := some reading } : Compiler).bench? =
      some bench := holds
    have shadows := pump_shadows keeps compiles ((Token.scan text).tokens.length + 1) stands rfl
      sameId waits
    exact ⟨shadows.same, shadows.state, shadows.visits⟩

end Shadows

/-- Where the mode says whether modules wait, the machine compiles a file as it is compiled, and
records its visits. -/
theorem file_shadows (fuel : Nat) (path id : String) (includedAt : Location) (compiler : Compiler)
    (mode : compiler.desk.includeMode = !compiler.waiting.isEmpty) :
    Shadows (fun compiler => some compiler.session) compiler
      (Compile.visits compiler.waiting fuel path id compiler.session)
      (Compile.file compiler.waiting includedAt fuel path id compiler.session)
      (file fuel (compiler.waiting.length + 1) path id includedAt compiler) := by
  induction fuel generalizing path id includedAt compiler with
  | zero => exact ⟨rfl, rfl, rfl⟩
  | succ fuel ih =>
    rw [file, Compile.file_eq, Compile.visits]
    unfold fileWith conclusion
    dsimp only
    generalize compiler.session.files.absolute path = source
    generalize effectiveId source id = id
    cases readable : compiler.session.files.stat source with
    | error cause =>
      refine ⟨rfl, rfl, ?_⟩
      cases compiler.session.registry.idOfFile? source <;> rfl
    | ok node =>
    cases node with
    | directory =>
      refine ⟨rfl, rfl, ?_⟩
      cases compiler.session.registry.idOfFile? source <;> rfl
    | file content =>
    cases isBound : compiler.session.registry.idOfFile? source with
    | some first =>
      have circular : (compiler.desk.includeMode && compiler.waiting.contains first) =
          compiler.waiting.contains first := by
        rw [mode]
        cases compiler.waiting <;> simp
      simp only [circular]
      by_cases isWaiting : compiler.waiting.contains first = true
      · rw [if_pos isWaiting, if_pos isWaiting]
        exact ⟨rfl, rfl, rfl⟩
      · rw [if_neg isWaiting, if_neg isWaiting]
        cases compiler.session.registry.addDuplicate? id first <;> exact ⟨rfl, rfl, rfl⟩
    | none =>
    cases content with
    | none =>
      refine ⟨rfl, rfl, ?_⟩
      exact List.append_assoc _ _ _
    | some content =>
      have keeps : Keeps (includer fuel (compiler.waiting.length + 1) source) :=
        fun _ _ _ => file_keeps _ _ _ _ _
      have compiles : Compiles (includer fuel (compiler.waiting.length + 1) source)
          compiler.waiting fuel source id := by
        intro path name line other included waits
        have shadows := ih path name (Location.ofLine source line) other
          (by rw [included, waits]; rfl)
        rw [waits] at shadows
        exact shadows
      dsimp only
      generalize started : record (hold _ _) _ _ _ = begun
      have holds : begun.bench? = some ⟨bound compiler.session source id,
        Frame.initial id source⟩ := started ▸ rfl
      have waits : begun.waiting = compiler.waiting := started ▸ rfl
      have begins : begun.desk.includeMode = compiler.desk.includeMode := started ▸ rfl
      have recorded : begun.visits = compiler.visits ++
          [⟨source, compiler.waiting.length + 1, .called⟩,
            ⟨source, compiler.waiting.length + 1, .opened⟩,
            ⟨source, compiler.waiting.length + 1, .lowered⟩] := by
        rw [← started]
        simp [record, hold]
      have shadows := body_shadows keeps compiles (Text.decode content) holds rfl waits
      have kept := (body_keeps keeps (Text.decode content) begun).includeMode
      rw [← lowering_eq] at shadows
      unfold includer at shadows kept
      generalize body _ _ begun = outcome at shadows kept
      obtain ⟨ends, state, visits⟩ := shadows
      rw [recorded, List.append_assoc] at visits
      generalize lowering _ _ _ _ _ _ = result at ends state
      cases result with
      | error failure bench =>
        rw [ends]
        exact ⟨rfl, congrArg some (session_of_bench? state), visits⟩
      | ok _ bench =>
        rw [ends]
        simp only [ended, state]
        rw [kept, begins, mode]
        exact ⟨rfl, rfl, visits⟩

theorem includer_compiles (fuel : Nat) (waiting : List String) (source id : String) :
    Compiles (includer fuel (waiting.length + 1) source) waiting fuel source id := by
  intro path name line compiler included waits
  have shadows := file_shadows fuel path name (Location.ofLine source line) compiler
    (by rw [included, waits]; rfl)
  rw [waits] at shadows
  exact shadows

/-- In every state of the compiler and however an include statement ends, whatever the included file
includes: every field and the suspended ones are as before, except that the module has got the alias
if the statement succeeded.  The statement comes to what its lowering comes to. -/
theorem inclusion_restores_fields (fuel depth : Nat) (source : String) (written : Include)
    (compiler : Compiler) :
    let result := lower (includer fuel depth source) (.inclusion written) compiler
    (∃ session visits,
      (∃ failure, result = .error failure { compiler with session, visits }) ∨
      ∃ current, compiler.desk.current = some current ∧
        result = .ok () { compiler with
          session
          visits
          desk.current := some { current with
            module.dependencies := current.module.dependencies ++ [written.id] } }) ∧
    ∀ bench, compiler.bench? = some bench → depth = compiler.waiting.length + 1 →
      let lowered := Lowering.inclusion
        (Compile.includer compiler.waiting source bench.frame.module.id fuel) written bench
      result = ended (finalState result) lowered ∧
        (finalState result).bench? = some (finalState lowered) := by
  have keeps : Keeps (includer fuel depth source) := fun _ _ _ => file_keeps _ _ _ _ _
  refine ⟨?_, fun bench holds isDepth => ?_⟩
  · unfold lower
    cases holds : compiler.bench? with
    | none => exact ⟨_, _, .inl ⟨_, rfl⟩⟩
    | some bench =>
      obtain ⟨session, visits, outcome⟩ := follow_inclusion keeps written bench compiler
      obtain ⟨current, isCurrent, module, held⟩ :=
        hold_bench (show ({ compiler with visits } : Compiler).bench? = some bench from holds)
      refine ⟨session, visits, ?_⟩
      rcases outcome with succeeds | ⟨failure, fails⟩
      · refine .inr ⟨current, isCurrent, succeeds.trans (congrArg _ ?_)⟩
        rw [withDependency, held, module]
      · refine .inl ⟨failure, fails.trans (congrArg _ ?_)⟩
        rw [show bench.frame = { bench.frame with module := bench.frame.module } from rfl, held,
          module, ← show compiler.desk.current = some current from isCurrent]
  · subst isDepth
    have shadows := lower_shadows keeps (includer_compiles fuel compiler.waiting source _)
      (Outline.Sketches.inclusion written).steady holds rfl rfl
    rw [← (Outline.Sketches.inclusion written).outlines] at shadows
    exact ⟨shadows.same, shadows.state⟩

/-- The statement of the file that includes itself leaves the fields as they were, and fails as its
lowering does. -/
theorem selfIncluding_restores_fields :
    let compiler := ({ session := Session.selfIncluding } : Compiler).hold Session.selfBench
    let result := lower (includer 1 1 "/m.krk") (.inclusion ⟨1, .file ["m"], none⟩) compiler
    (finalState result).bench? = some (finalState (Lowering.inclusion
      (Compile.includer [] "/m.krk" "m" 1) ⟨1, .file ["m"], none⟩ Session.selfBench)) :=
  ((inclusion_restores_fields 1 1 "/m.krk" ⟨1, .file ["m"], none⟩ _).2 Session.selfBench rfl rfl).2

/-! ## Once -/

/-- The compiler after entry files were compiled one after the other, whatever came of each. -/
def entries (fuel : Nat) : List (String × String) → Compiler → Compiler
  | [], compiler => compiler
  | (path, id) :: later, compiler =>
    entries fuel later (finalState (file fuel 1 path id {} compiler))

/-- What was recorded between two states of the compiler, and what it says of them: the opened files
were not bound before and are bound after, and those among them that can be read are lowered. -/
structure Steps (before after : Compiler) (steps : List Visit) : Prop where
  visits : after.visits = before.visits ++ steps
  binds : before.session.places.Binds after.session.places (sources .opened steps)
  lowered : sources .lowered steps =
    (sources .opened steps).filter before.session.files.isReadable
  depth : ∀ visit ∈ steps, visit.depth ≤ before.session.files.files.length + 1

/-- No module waits. -/
structure Idle (compiler : Compiler) : Prop where
  suspended : compiler.suspended = []
  includeMode : compiler.desk.includeMode = false
  rooted : Path.isAbsolute compiler.session.files.current = true

theorem Steps.refl (compiler : Compiler) : Steps compiler compiler [] :=
  ⟨(List.append_nil _).symm, .nothing _, rfl, by simp⟩

theorem Steps.append {before between after : Compiler} {first second : List Visit}
    (starts : Steps before between first) (continues : Steps between after second) :
    Steps before after (first ++ second) := by
  have sameFiles : between.session.files = before.session.files := starts.binds.extends_.files
  refine ⟨?_, ?_, ?_, ?_⟩
  · rw [continues.visits, starts.visits, List.append_assoc]
  · rw [sources_append]
    exact starts.binds.append continues.binds
  · rw [sources_append, sources_append, List.filter_append, starts.lowered, continues.lowered,
      sameFiles]
  · intro visit member
    rcases List.mem_append.mp member with early | late
    · exact starts.depth visit early
    · rw [← sameFiles]
      exact continues.depth visit late

/-- One entry file. -/
theorem Idle.file (idle : Idle compiler) (fuel : Nat) (path id : String) :
    let after := finalState (Compiler.file fuel 1 path id {} compiler)
    after.session = finalState (Compile.file [] {} fuel path id compiler.session) ∧
      Idle after ∧ ∃ steps, Steps compiler after steps := by
  have waits : compiler.waiting = [] := by rw [Compiler.waiting, idle.suspended]; rfl
  have shadows := file_shadows fuel path id {} compiler (by rw [waits, idle.includeMode]; rfl)
  rw [waits] at shadows
  have same : (finalState (Compiler.file fuel 1 path id {} compiler)).session =
    finalState (Compile.file [] {} fuel path id compiler.session) := Option.some.inj shadows.state
  have kept := file_keeps fuel 1 path id {} compiler
  have binds := visits_bind fuel [] {} path id compiler.session
  refine ⟨same, ⟨?_, ?_, ?_⟩, _, shadows.visits, ?_, visits_lowered fuel [] path id _,
    visits_depth fuel path id idle.rooted (.nothing _)⟩
  · rw [kept.suspended, idle.suspended]
  · rw [kept.includeMode, idle.includeMode]
  · have files : (finalState (Compile.file [] {} fuel path id compiler.session)).files =
      compiler.session.files := binds.extends_.files
    rw [same, files]
    exact idle.rooted
  · rw [same]
    exact binds

theorem Idle.entries (idle : Idle compiler) (fuel : Nat) (list : List (String × String)) :
    ∃ steps, Steps compiler (Compiler.entries fuel list compiler) steps := by
  induction list generalizing compiler with
  | nil => exact ⟨_, .refl compiler⟩
  | cons entry later ih =>
    obtain ⟨path, id⟩ := entry
    obtain ⟨-, stays, steps, starts⟩ := idle.file fuel path id
    obtain ⟨more, continues⟩ := ih stays
    exact ⟨_, starts.append continues⟩

/-- With enough fuel, entry files are compiled as they are one by one. -/
theorem Idle.session_entries (idle : Idle compiler) {fuel : Nat}
    (enough : compiler.session.files.files.length < fuel) (list : List (String × String)) :
    (Compiler.entries fuel list compiler).session = list.foldl (fun session entry =>
      finalState (session.compileEntry entry.1 entry.2)) compiler.session := by
  induction list generalizing compiler with
  | nil => rfl
  | cons entry later ih =>
    obtain ⟨path, id⟩ := entry
    obtain ⟨same, stays, steps, starts⟩ := idle.file fuel path id
    have files : (finalState (Compiler.file fuel 1 path id {} compiler)).session.files =
      compiler.session.files := starts.binds.extends_.files
    have compiled : Compile.file [] {} fuel path id compiler.session =
        compiler.session.compileEntry path id := by
      obtain ⟨more, rfl⟩ := Nat.exists_eq_add_of_lt enough
      rw [compileEntry_eq, Nat.add_right_comm]
      exact file_enough_fuel more {} path id idle.rooted (.nothing _) (by simp)
    rw [compiled] at same
    rw [List.foldl_cons, ← same]
    exact ih stays (by rw [files]; exact enough)

/-- However many entry files are compiled by one compiler, and whatever includes what: no text is
lowered twice, and those of the files that become bound are lowered if they can be read; no call is
deeper than the number of files and one more.  With fuel for every file the session is that of the
entries compiled one by one. -/
theorem entries_lower_once_at_bounded_depth (session : Session)
    (rooted : Path.isAbsolute session.files.current = true) (list : List (String × String))
    (fuel : Nat) :
    let last := entries fuel list { session }
    (sources .lowered last.visits).Nodup ∧
    (∀ source, source ∈ sources .lowered last.visits ↔
      session.registry.idOfFile? source = none ∧
        (∃ id, last.session.registry.idOfFile? source = some id) ∧
        session.files.isReadable source = true) ∧
    (∀ visit ∈ last.visits, visit.depth ≤ session.files.files.length + 1) ∧
    (session.files.files.length < fuel → last.session = list.foldl (fun session entry =>
      finalState (session.compileEntry entry.1 entry.2)) session) := by
  have idle : Idle { session } := ⟨rfl, rfl, rooted⟩
  obtain ⟨steps, recorded, binds, lowered, depth⟩ := idle.entries fuel list
  rw [List.nil_append] at recorded
  dsimp only
  rw [recorded, lowered]
  refine ⟨binds.distinct.filter _, fun source => ?_, depth, fun enough =>
    idle.session_entries enough list⟩
  rw [List.mem_filter]
  constructor
  · rintro ⟨member, readable⟩
    exact ⟨binds.wereNew source member, binds.areBound source member, readable⟩
  · rintro ⟨isNew, ⟨id, isBound⟩, readable⟩
    rcases binds.noOthers source id isBound with member | wasBound
    · exact ⟨member, readable⟩
    · cases isNew.symm.trans wasBound

/-- A file that includes itself, compiled as two entries with fuel to spare. -/
theorem selfIncluding_lowered_once :
    let last := entries 5 [("m.krk", ""), ("m.krk", "n")] { session := Session.selfIncluding }
    sources .lowered last.visits = ["/m.krk"] ∧ (sources .lowered last.visits).Nodup ∧
      ∀ visit ∈ last.visits, visit.depth ≤ 2 := by
  obtain ⟨once, -, depth, -⟩ := entries_lower_once_at_bounded_depth Session.selfIncluding rfl
    [("m.krk", ""), ("m.krk", "n")] 5
  have single : Session.selfIncluding.files.files.length = 1 := by
    simp [Session.selfIncluding, FileTree.files, Table.sorted]
  rw [single] at depth
  exact ⟨by decide +kernel, once, depth⟩

end Compiler

end Kronk
