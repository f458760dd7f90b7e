import Kronk.Proofs.Functions

/-!
# Definitions before uses

The main statement is `Compile.file_dominated`: if the statements of a file mention only names that
are definite and the file compiles, then in every function of its module each use of a result is
passed only after the instruction that defines the result.
-/

namespace Kronk.Source

/-- Names are definite where they are mentioned; where that is not asked for, nothing is counted as
definite. -/
structure Settled (strict : Prop) (definite : Definite) (isSettled : Bool) : Prop where
  strictly : strict → isSettled = true
  loosely : ¬ strict → definite = none

namespace Settled

variable {strict : Prop} {definite : Definite} {first second : Bool}

theorem and (settled : Settled strict definite (first && second)) :
    Settled strict definite first ∧ Settled strict definite second := by
  have parts : strict → first = true ∧ second = true := fun isStrict => by
    simpa using settled.strictly isStrict
  exact ⟨⟨fun isStrict => (parts isStrict).1, settled.loosely⟩,
    ⟨fun isStrict => (parts isStrict).2, settled.loosely⟩⟩

theorem without {declared : List String} (settled : Settled strict definite first) :
    Settled strict (definite.without declared) first where
  strictly := settled.strictly
  loosely loose := by
    rw [settled.loosely loose]
    rfl

theorem mentions {expression : Expr}
    (settled : Settled strict definite (definite.allows expression)) :
    ∀ names, definite = some names → expression.mentions ⊆ names := by
  rintro names rfl name member
  by_cases isStrict : strict
  · have allowed := settled.strictly isStrict
    unfold Definite.allows at allowed
    rw [Option.all_some, List.all_eq_true] at allowed
    simpa using allowed name member
  · cases settled.loosely isStrict

end Settled

end Kronk.Source

namespace Kronk.Lowering

open IR (Block Code results)
open Source (Definite Settled Stmt Alternative)

namespace Advances

variable {strict : Prop} {module : String} {compileIncluded : Includer}

theorem done {given : List IR.Value} {exit : String} {definite later : Definite}
    {declared : List String} {leaves : Bool} {lowering : Lower Unit}
    (advances : Advances strict given exit definite later declared leaves lowering) :
    Advances strict given exit definite later declared leaves
      (lowering >>= fun _ => Pure.pure ()) := by
  intro before after stands outcome
  obtain ⟨⟨⟩, middle, outcome, same⟩ := bind_eq_ok outcome
  cases same
  exact advances before _ stands outcome

/-- Where nothing is definite, nothing is said of what is definite afterwards. -/
theorem vacuous {given : List IR.Value} {exit : String} {later : Definite} {declared : List String}
    {leaves : Bool} {lowering : Lower Unit}
    (advances : Advances strict given exit none later declared leaves lowering) (other : Definite) :
    Advances strict given exit none other declared leaves lowering := by
  intro before after stands outcome
  obtain ⟨code, proceeds, isLeaving, _, ranges⟩ := advances before after stands outcome
  exact ⟨code, proceeds, isLeaving, nofun, ranges⟩

mutual

/-- A statement makes structured code; if it is settled, the code carries on what is definite. -/
theorem statement (waits : Waits compileIncluded) (exit : String) (stmt : Stmt)
    (definite : Definite) (settled : Settled strict definite (stmt.isSettled definite))
    (belongs : ∀ part ∈ stmt.within, part.BelongsTo module) :
    Advances strict [] exit definite (stmt.after definite) stmt.declared stmt.isResult
      (Lowering.statement compileIncluded stmt) := by
  cases stmt with
  | declaration line name type => exact declaration line name type
  | initialisation line name value =>
    exact initialisation name settled.mentions
  | entity definition => exact entityDefinition definition
  | function line prototype body =>
    obtain ⟨mangled, _⟩ := belongs (.function line prototype body) List.mem_cons_self
    have belongsBody := fun part member => belongs part (List.mem_cons_of_mem _ member)
    by_cases isStrict : strict
    · obtain ⟨leaves, advances⟩ := block waits exitLabel body
        (some (prototype.parameters.map Prod.fst))
        ⟨fun _ => settled.strictly isStrict, fun loose => absurd isStrict loose⟩ belongsBody
      exact functionDefinition mangled (fun _ => ⟨_, rfl⟩) advances
    · obtain ⟨leaves, advances⟩ := block waits exitLabel body none
        ⟨fun strictly => absurd strictly isStrict, fun _ => rfl⟩ belongsBody
      exact functionDefinition mangled (fun strictly => absurd strictly isStrict) advances
  | result line value =>
    apply resultStatement line
    rintro expression rfl
    exact settled.mentions
  | conditional line condition consequent rest =>
    obtain ⟨settledFirst, settledSecond⟩ := Settled.and (by exact settled)
    obtain ⟨allowed, settledFirst⟩ := settledFirst.and
    obtain ⟨_, first⟩ := block waits exit consequent definite settledFirst fun part member =>
      belongs part (List.mem_cons_of_mem _ (List.mem_append_left _ member))
    obtain ⟨_, second⟩ := alternative waits exit rest _ settledSecond.without fun part member =>
      belongs part (List.mem_cons_of_mem _ (List.mem_append_right _ member))
    exact conditional allowed.mentions first second
  | loop line condition body =>
    obtain ⟨allowed, settledBody⟩ := Settled.and (by exact settled)
    obtain ⟨_, advances⟩ := block waits exit body definite settledBody fun part member =>
      belongs part (List.mem_cons_of_mem _ member)
    exact loop allowed.mentions advances
  | inclusion written => exact inclusion waits written
  | expression value => exact evaluation settled.mentions

theorem block (waits : Waits compileIncluded) (exit : String) (body : Source.Block)
    (definite : Definite) (settled : Settled strict definite (body.isSettled definite))
    (belongs : ∀ part ∈ body.within, part.BelongsTo module) :
    ∃ leaves, Advances strict [] exit definite (body.after definite) body.declared leaves
      (Lowering.block compileIncluded body) := by
  cases body with
  | mk line body => exact statements waits exit body definite settled belongs

theorem statements (waits : Waits compileIncluded) (exit : String) (body : List Stmt)
    (definite : Definite) (settled : Settled strict definite (Source.settledAll body definite))
    (belongs : ∀ part ∈ Source.withinAll body, part.BelongsTo module) :
    ∃ leaves, Advances strict [] exit definite (Source.afterAll body definite)
      (Source.declaredAll body) leaves (Lowering.statements compileIncluded body) := by
  cases body with
  | nil => exact ⟨false, pure⟩
  | cons first rest =>
    obtain ⟨settledFirst, settledRest⟩ := Settled.and (by exact settled)
    have advances := statement waits exit first definite settledFirst fun part member =>
      belongs part (List.mem_append_left _ member)
    have belongsRest := fun part member => belongs part (List.mem_append_right _ member)
    rw [Lowering.statements, Source.afterAll, Source.declaredAll]
    cases isResult : first.isResult with
    | true =>
      rw [isResult] at advances
      refine ⟨true, ?_⟩
      simpa using advances.done
    | false =>
      rw [isResult] at advances settledRest
      by_cases isStrict : strict
      · obtain ⟨leaves, later⟩ := statements waits exit rest (first.after definite)
          ⟨settledRest.strictly, fun loose => absurd isStrict loose⟩ belongsRest
        exact ⟨leaves, advances.seq later⟩
      · obtain rfl := settled.loosely isStrict
        obtain ⟨leaves, later⟩ := statements waits exit rest none
          ⟨fun strictly => absurd strictly isStrict, fun _ => rfl⟩ belongsRest
        exact ⟨leaves, ((advances.vacuous none).seq later).vacuous _⟩

theorem alternative (waits : Waits compileIncluded) (exit : String) (rest : Alternative)
    (definite : Definite) (settled : Settled strict definite (rest.isSettled definite))
    (belongs : ∀ part ∈ rest.within, part.BelongsTo module) :
    ∃ leaves, Advances strict [] exit definite (rest.after definite) rest.declared leaves
      (Lowering.alternative compileIncluded rest) := by
  cases rest with
  | absent => exact ⟨false, pure⟩
  | block body => exact block waits exit body definite settled belongs
  | conditional line condition consequent rest =>
    obtain ⟨settledFirst, settledSecond⟩ := Settled.and (by exact settled)
    obtain ⟨allowed, settledFirst⟩ := settledFirst.and
    obtain ⟨_, first⟩ := block waits exit consequent definite settledFirst fun part member =>
      belongs part (List.mem_append_left _ member)
    obtain ⟨_, second⟩ := alternative waits exit rest _ settledSecond.without fun part member =>
      belongs part (List.mem_append_right _ member)
    exact ⟨false, conditional allowed.mentions first second⟩

end

end Advances

end Kronk.Lowering

namespace Kronk.Compile

open Lowering Source

/-! ## The statements of a file -/

/-- Records what was read and lowers the statement. -/
def lowerRead (compileIncluded : String → String → Nat → Lower Unit) (found : Stmt)
    (after : Reading) : Lower Unit := do
  Lower.modifyModule fun module => { module with signatures := after.signatures }
  modify fun bench => { bench with session := bench.session.traceAll after.trace }
  modify fun bench =>
    let log := bench.session.log.dump "statement" (bench.session.showStatement found)
    { bench with session := { bench.session with log := log } }
  checked (Lowering.statement compileIncluded found)

/-- The statements that are read from a place on, each after the one before it was lowered. -/
def written (compileIncluded : String → String → Nat → Lower Unit) :
    (fuel : Nat) → Reading → Workbench → List Stmt
  | 0, _, _ => []
  | fuel + 1, reading, bench =>
    match readNext reading bench with
    | .ok (some found) after =>
      match lowerRead compileIncluded found after bench with
      | .ok _ later => found :: written compileIncluded fuel after later
      | .error _ _ => [found]
    | _ => []

def writtenIn (compileIncluded : String → String → Nat → Lower Unit) (text : String)
    (bench : Workbench) : List Stmt :=
  let module := bench.frame.module
  let scan := Token.scan text
  match Reading.start ⟨module.file, module, bench.session.registry⟩ scan {} with
  | .ok _ reading => written compileIncluded (scan.tokens.length + 1) reading bench
  | .error _ _ => []

structure Noted (read : Reading) (before after : Workbench) : Prop where
  registry : after.session.registry = before.session.registry
  module : after.frame.module = { before.frame.module with signatures := read.signatures }
  draft : after.frame.draft = before.frame.draft
  scopes : after.frame.scopes = before.frame.scopes
  file : after.frame.fileName = before.frame.fileName

theorem noted_traceAll (read : Reading) (bench : Workbench) (log : Session → Log) : Noted read bench
      { session :=
          let traced := bench.session.traceAll read.trace
          { traced with log := log traced }
        frame :=
          { bench.frame with module := { bench.frame.module with signatures := read.signatures } } }
    where
  registry := by
    obtain ⟨_, _, same⟩ := traceAll_eq bench.session read.trace
    rw [same]
  module := rfl
  draft := rfl
  scopes := rfl
  file := rfl

theorem Noted.untouched {read : Reading} {before after : Workbench}
    (noted : Noted read before after) : Untouched before after where
  draft := noted.draft
  scopes := noted.scopes
  file := noted.file
  functions name isKnown := by
    rw [noted.module]
    exact isKnown

section Statements

variable {compileIncluded : Includer} {fuel : Nat} {reading : Reading}
  {bench final : Workbench}

/-- The text of a file is lowered from its first token on. -/
theorem body_cases {text : String} (outcome : body compileIncluded text bench = .ok () final) :
    ∃ start, Reading.start ⟨bench.frame.module.file, bench.frame.module, bench.session.registry⟩
        (Token.scan text) {} = .ok () start ∧ start.Worded ∧
      statements compileIncluded ((Token.scan text).tokens.length + 1) start bench = .ok () final ∧
      writtenIn compileIncluded text bench =
        written compileIncluded ((Token.scan text).tokens.length + 1) start bench := by
  unfold body at outcome
  obtain ⟨_, _, ⟨⟩, outcome⟩ := bind_eq_ok outcome
  unfold writtenIn
  dsimp only at outcome ⊢
  generalize found : Reading.start _ _ _ = started at outcome ⊢
  cases started with
  | error failure stopped => cases outcome
  | ok nothing start =>
    exact ⟨start, rfl, Reading.start_worded (Token.scanLines_worded 1 text.toList) found, outcome,
      rfl⟩

/-- Lowering ends where nothing is left, or it lowers a statement and goes on. -/
theorem statements_cases (outcome : statements compileIncluded (fuel + 1) reading bench =
    .ok () final) : (∃ after, readNext reading bench = .ok none after ∧ Noted after bench final) ∨
      ∃ found after later, readNext reading bench = .ok (some found) after ∧
        lowerRead compileIncluded found after bench = .ok () later ∧
        statements compileIncluded fuel after later = .ok () final := by
  rw [statements] at outcome
  obtain ⟨start, _, ⟨⟩, outcome⟩ := bind_eq_ok outcome
  cases read : readNext reading bench with
  | error failure after =>
    unfold readNext at read
    simp only [read] at outcome
    obtain ⟨⟨⟩, _, _, failed⟩ := bind_eq_ok outcome
    cases failed
  | ok found after =>
    unfold readNext at read
    simp only [read] at outcome
    cases found with
    | none =>
      refine .inl ⟨after, rfl, ?_⟩
      cases outcome
      exact noted_traceAll after bench Session.log
    | some found =>
      obtain ⟨⟨⟩, finished, finishes, outcome⟩ := bind_eq_ok outcome
      obtain ⟨⟨⟩, dumped, dumps, outcome⟩ := bind_eq_ok outcome
      obtain ⟨⟨⟩, later, lowers, outcome⟩ := bind_eq_ok outcome
      refine .inr ⟨found, after, later, rfl, ?_, outcome⟩
      cases finishes
      cases dumps
      exact lowers

variable {found : Stmt} {later : Workbench}

theorem lowerRead_spec {after : Reading}
    (outcome : lowerRead compileIncluded found after bench = .ok () later) :
    ∃ middle, Noted after bench middle ∧
      Lowering.statement compileIncluded found middle = .ok () later := by
  obtain ⟨⟨⟩, signed, signs, outcome⟩ := bind_eq_ok outcome
  obtain ⟨⟨⟩, traced, traces, outcome⟩ := bind_eq_ok outcome
  obtain ⟨⟨⟩, dumped, dumps, outcome⟩ := bind_eq_ok outcome
  refine ⟨dumped, ?_, of_checked_eq_ok outcome⟩
  cases signs
  cases traces
  cases dumps
  exact noted_traceAll after bench fun session =>
    session.log.dump "statement" (session.showStatement found)

theorem written_succ {after : Reading} (read : readNext reading bench = .ok (some found) after)
    (lowers : lowerRead compileIncluded found after bench = .ok () later) :
    written compileIncluded (fuel + 1) reading bench =
      found :: written compileIncluded fuel after later := by
  rw [written, read]
  simp only [lowers]

/-- A statement of the program does not leave a function. -/
theorem isResult_of_program {strict : Prop} (stands : Stands strict "ProgramExit" bench)
    (lowered : Lowering.statement compileIncluded found bench = .ok () later) :
    found.isResult = false := by
  cases found with
  | result line value =>
    have wrong := Advances.exit_of_result stands lowered
    exact absurd wrong (by decide)
  | _ => rfl

/-- Statements make structured code in the program, one after the other; if they are settled, the
code carries on what is definite. -/
theorem statements_proceed {strict : Prop} (waits : Waits compileIncluded) (worded : reading.Worded)
    (stands : Stands strict "ProgramExit" bench)
    (outcome : statements compileIncluded fuel reading bench = .ok () final) (definite : Definite)
    (settled : Settled strict definite
      (settledAll (written compileIncluded fuel reading bench) definite)) :
    ∃ code declared later, Proceeds strict "ProgramExit" declared bench code final ∧
      code.leaves = false ∧ Carries [] definite later bench code final ∧
      Ranges [] bench code final := by
  induction fuel generalizing reading bench definite with
  | zero => cases outcome
  | succ fuel ih =>
    rcases statements_cases outcome with ⟨_, _, noted⟩ | ⟨found, after, later, read, lowers, rest⟩
    · obtain ⟨code, proceeds, goesOn, carries, ranges⟩ := Passes.untouched noted.untouched stands
      exact ⟨code, [], definite, proceeds, goesOn, carries definite, ranges⟩
    · rw [written_succ read lowers] at settled
      obtain ⟨settledFirst, settledRest⟩ := Settled.and (by exact settled)
      obtain ⟨recorded, belongs⟩ := Reading.statement_belongs (by exact worded) read
      obtain ⟨middle, noted, lowered⟩ := lowerRead_spec lowers
      have passes := Passes.untouched noted.untouched stands
      have advances := Advances.statement waits "ProgramExit" found definite settledFirst belongs
      obtain ⟨code, proceeds, isLeaving, carries, ranges⟩ :=
        advances middle later (passes.stands stands) lowered
      have goesOn := isResult_of_program (passes.stands stands) lowered
      rw [goesOn] at isLeaving settledRest
      obtain ⟨nothing, passing, _, carriesPassing, rangesPassing⟩ := passes
      have standsLater := proceeds.stands (passing.stands stands (by assumption)) isLeaving
      by_cases isStrict : strict
      · obtain ⟨others, declared, last, proceedsOn, goesOnOn, carriesOn, rangesOn⟩ :=
          ih recorded.worded standsLater rest (found.after definite)
            ⟨settledRest.strictly, fun loose => absurd isStrict loose⟩
        exact ⟨_, _, last, (passing.seq proceeds).seq proceedsOn, goesOnOn,
          ((carriesPassing definite).seq carries).seq carriesOn,
          (rangesPassing.seq ranges).seq rangesOn⟩
      · obtain rfl := settled.loosely isStrict
        obtain ⟨others, declared, last, proceedsOn, goesOnOn, _, rangesOn⟩ :=
          ih recorded.worded standsLater rest none
            ⟨fun strictly => absurd strictly isStrict, fun _ => rfl⟩
        exact ⟨_, _, none, (passing.seq proceeds).seq proceedsOn, goesOnOn, nofun,
          (rangesPassing.seq ranges).seq rangesOn⟩

end Statements

/-! ## The program -/

theorem ready_initial (id path : String) : Ready "ProgramExit" (Frame.initial id path).draft ∧
      (Frame.initial id path).draft.point = ⟨0, 0⟩ := by
  have valid : (Frame.initial id path).draft.Valid := Nat.zero_lt_one
  have blocks : (Frame.initial id path).draft.blocks = [{ label := "ProgramEntry" }] := rfl
  exact ready_of_single valid blocks rfl (numbered_ne_of_plain (by decide) (by decide))
    (numbered_ne_of_plain (by decide) (by decide)) (by decide)

theorem sound_initial (strict : Prop) (session : Session) (id path : String) :
    Sound strict ⟨session, Frame.initial id path⟩ := by
  have only : ∀ (index : Nat) (function : IR.Function), index ≠ 0 →
      (Frame.initial id path).draft.functions[index]? ≠ some function := by
    intro index function notProgram found
    have inside := (List.getElem?_eq_some_iff.mp found).1
    exact notProgram (Nat.lt_one_iff.mp inside)
  constructor
  · rfl
  · intro index function notProgram _ found
    exact absurd found (only index function notProgram)
  · intro index function notProgram found
    exact absurd found (only index function notProgram)
  · intro _
    rfl
  · exact Nat.zero_lt_one
  · rfl

theorem stands_initial (strict : Prop) (session : Session) (id path : String) :
    Stands strict "ProgramExit" ⟨session, Frame.initial id path⟩ where
  ready := (ready_initial id path).1
  sound := sound_initial strict session id path
  leaving active := by cases active

def closing : Emit Unit := do
  let exitBlock ← Emit.newBlock "ProgramExit"
  Emit.jumpUnlessTerminated "ProgramExit"
  Emit.enterBlock exitBlock
  Emit.terminate (.ret (some (.integer .i32 0)))

theorem closing_stays (draft : Draft) : Stays draft (closing draft).2 := by
  have stays : Local closing :=
    .bind (.newBlock _) fun _ => .bind (.jumpUnlessTerminated _) fun _ =>
      .bind (.enterBlock _) fun _ => .terminate _
  exact stays draft

private theorem modify_append_of_lt {α : Type} {values : List α} {position : Nat} (last : α)
    (change : α → α) (inside : position < values.length) :
    (values ++ [last]).modify position change = values.modify position change ++ [last] := by
  induction values generalizing position with
  | nil => cases inside
  | cons value rest ih =>
    cases position with
    | zero => rfl
    | succ position =>
      have smaller : position < rest.length := Nat.lt_of_succ_lt_succ inside
      simp only [List.cons_append, List.modify_succ_cons, ih smaller]

variable {draft : Draft} {final : Workbench} {session : Session} {id path : String}

theorem blocks_ended (valid : draft.Valid) (terminator : IR.Terminator) :
    (draft.ended terminator).blocks = draft.blocks.modify draft.place.block fun block =>
      { block with terminator := some terminator } :=
  valid.blocks_mapBlocks

/-- The draft with the block at which the program ends, which is still to be entered. -/
def withExit (draft : Draft) : Draft := draft.mapBlocks (· ++ [{ label := "ProgramExit" }])

theorem blocks_withExit (valid : draft.Valid) :
    (withExit draft).blocks = draft.blocks ++ [{ label := "ProgramExit" }] :=
  valid.blocks_mapBlocks

theorem isOpen_withExit (ready : Ready "ProgramExit" draft) : (withExit draft).IsOpen := by
  obtain ⟨block, found, ended⟩ := ready.isOpen
  refine ⟨block, ?_, ended⟩
  rw [blocks_withExit ready.labelled.valid]
  exact (List.getElem?_append_left (List.getElem?_eq_some_iff.mp found).1).trans found

theorem closing_eq (ready : Ready "ProgramExit" draft) :
    (closing draft).2 = (((withExit draft).ended (.jump "ProgramExit")).entering
      draft.blocks.length).ended (.ret (some (.integer .i32 0))) := by
  have validOpened : (withExit draft).Valid := Draft.Valid.mapBlocks ready.labelled.valid
  have added := Emit.newBlock_eq draft "ProgramExit"
  change (((Emit.newBlock "ProgramExit" draft).2.jumping "ProgramExit").entering
    (Emit.newBlock "ProgramExit" draft).1).ended (.ret (some (.integer .i32 0))) = _
  rw [added, ← (isOpen_withExit ready).jumping validOpened]
  rfl

theorem blocks_closing (ready : Ready "ProgramExit" draft) :
    (closing draft).2.blocks = (draft.jumping "ProgramExit").blocks ++
      [⟨"ProgramExit", [], some (.ret (some (.integer .i32 0)))⟩] := by
  have valid := ready.labelled.valid
  have validOpened : (withExit draft).Valid := Draft.Valid.mapBlocks valid
  have validJumped : ((withExit draft).ended (.jump "ProgramExit")).Valid :=
    Draft.Valid.mapBlocks validOpened
  have place : (withExit draft).place.block = draft.place.block := rfl
  rw [closing_eq ready, blocks_ended (by exact validJumped), ready.jumping]
  change ((withExit draft).ended (.jump "ProgramExit")).blocks.modify draft.blocks.length _ = _
  rw [blocks_ended validOpened, blocks_ended valid, blocks_withExit valid, place,
    modify_append_of_lt _ _ ready.inside]
  have length : draft.blocks.length = (draft.blocks.modify draft.place.block fun block =>
      { block with terminator := some (.jump "ProgramExit") }).length :=
    (List.length_modify ..).symm
  rw [length, modify_length_append]

theorem supplies_initial (session : Session) (id path : String) (names : List String) :
    Supplies names {} ⟨session, Frame.initial id path⟩ where
  valid := (ready_initial id path).1.labelled.valid
  bound _ _ _ same := by cases same
  file := rfl
  slot _ same := by cases same

/-- The functions of a finished module are the program, which was closed, and others. -/
theorem finish_cases (isProgram : final.frame.draft.place.function = 0)
    (named : final.frame.draft.functions[0]?.map IR.Function.name = some "main") {included : Bool}
    {function : IR.Function} (member : function ∈ (final.frame.finish included).code.functions) :
    ((closing final.frame.draft).2.blocks = function.blocks ∧ function.name = "main") ∨
      ∃ index, index ≠ 0 ∧ index ≠ final.frame.draft.place.function ∧
        final.frame.draft.functions[index]? = some function := by
  have stays := closing_stays final.frame.draft
  have inside : function ∈ (closing final.frame.draft).2.functions := by
    cases included with
    | true => exact List.mem_of_mem_drop member
    | false => exact member
  obtain ⟨index, found⟩ := List.mem_iff_getElem?.mp inside
  by_cases here : index = 0
  · subst here
    have current : (closing final.frame.draft).2.function? = some function := by
      unfold Draft.function?
      rw [stays.function, isProgram]
      exact found
    have names := (Outside.of_stays stays).named
    rw [current] at names
    refine .inl ⟨?_, ?_⟩
    · unfold Draft.blocks
      rw [current]
      rfl
    · unfold Draft.function? at names
      rw [isProgram, named] at names
      exact Option.some.inj names
  · have other : index ≠ final.frame.draft.place.function := by rwa [isProgram]
    rw [stays.others index other] at found
    exact .inr ⟨index, here, other, found⟩

theorem place_final {strict : Prop} {declared : List String} {code : IR.Code}
    (proceeds :
      Proceeds strict "ProgramExit" declared ⟨session, Frame.initial id path⟩ code final) :
    final.frame.draft.place.function = 0 := by
  apply proceeds.sound.top
  rw [proceeds.depth]
  exact Nat.le_refl 1

/-- The functions of a finished module are dominated if the code of the program is closed. -/
theorem finish_dominated {declared : List String} {code : IR.Code} {later : Definite}
    (proceeds : Proceeds True "ProgramExit" declared ⟨session, Frame.initial id path⟩ code final)
    (goesOn : code.leaves = false)
    (carries : Carries [] (some []) later ⟨session, Frame.initial id path⟩ code final)
    (included : Bool) : ∀ function ∈ (final.frame.finish included).code.functions,
      IR.Block.Dominated function.blocks := by
  obtain ⟨ready, start⟩ := ready_initial id path
  obtain ⟨closed, _⟩ := carries [] {} rfl nofun (supplies_initial session id path [])
  obtain ⟨since, lays, continues⟩ := proceeds.builds.jumping "ProgramExit"
  change IR.Block.Lays _ _ _ (Frame.initial id path).draft.point _ at lays
  rw [start] at lays
  have program : IR.Block.Dominated (closing final.frame.draft).2.blocks := by
    rw [blocks_closing (proceeds.builds.ready goesOn)]
    apply IR.Block.dominated_append lays continues since.labelled.position?_exit closed rfl
    · intro run _
      exact IR.closed_straight_iff.mpr (by simp [IR.external])
    · intro run _ name member
      cases member
  intro function member
  rcases finish_cases (place_final proceeds) proceeds.sound.program member with
    ⟨same, _⟩ | ⟨index, here, other, found⟩
  · rw [← same]
    exact program
  · exact (proceeds.sound.finished index function here other found).1 trivial

theorem includer_waits (waiting : List String) (source id : String) (fuel : Nat) :
    Waits (includer waiting source id fuel) := by
  intro path includedId line before after outcome
  obtain ⟨_, middle, waited, same⟩ := bind_eq_ok outcome
  cases same
  unfold whileWaiting at waited
  split at waited
  · cases waited
    rfl
  · cases waited

theorem body_dominated {compileIncluded : Includer} {text : String} (waits : Waits compileIncluded)
    (settled : settledAll (writtenIn compileIncluded text ⟨session, Frame.initial id path⟩)
      (some []) = true)
    (outcome : body compileIncluded text ⟨session, Frame.initial id path⟩ = .ok () final)
    (included : Bool) : ∀ function ∈ (final.frame.finish included).code.functions,
      IR.Block.Dominated function.blocks := by
  obtain ⟨start, _, worded, lowered, same⟩ := body_cases outcome
  rw [same] at settled
  obtain ⟨code, declared, later, proceeds, goesOn, carries, _⟩ :=
    statements_proceed waits worded (stands_initial True session id path) lowered (some [])
      ⟨fun _ => settled, fun loose => absurd trivial loose⟩
  exact finish_dominated proceeds goesOn carries included

/-- The statements of a file that is compiled under an id. -/
def statementsOf (waiting : List String) (fuel : Nat) (source id : String) (content : ByteArray)
    (session : Session) : List Stmt :=
  writtenIn (includer waiting source id fuel) (Text.decode content)
    ⟨bound session source id, Frame.initial id source⟩

/-- A file whose statements mention only definite names, if it compiles, makes a module in which
every use of a result comes after its definition, on every way that control can take. -/
theorem file_dominated {waiting : List String} {includedAt : Location} {fuel : Nat}
    {path id source result : String} {session after : Session} {content : ByteArray}
    (located : session.files.absolute path = source)
    (isNew : session.registry.idOfFile? source = none)
    (readable : session.files.stat source = .ok (.file content))
    (settled : settledAll
      (statementsOf waiting fuel source (effectiveId source id) content session) (some []) = true)
    (outcome : file waiting includedAt (fuel + 1) path id session = .ok result after) :
    ∃ module earlier, after.registry.registrations = module :: earlier ∧
      ∀ function ∈ module.code.functions, IR.Block.Dominated function.blocks := by
  have cases := file_outcome waiting includedAt fuel path id session
  rw [outcome, located] at cases
  cases cases with
  | duplicate isBound _ _ =>
    rw [isNew] at isBound
    cases isBound
  | compiled _ isRead lowered =>
    rw [readable] at isRead
    cases isRead
    exact ⟨_, _, rfl, body_dominated (includer_waits _ _ _ _) settled lowered _⟩

/-- A program with a function, and with a loop whose body declares a name. -/
def countdownText : String :=
  "soit n = 2\nfn f(a:reel) reel \x7b\nret a\n\x7d\n" ++
    "Tantque n > 0 \x7b\nsoit m = f(n)\nn = m - 1\n\x7d\n"

def countdown : Session where
  files := { nodes := ⟨[("/main.krk", .file countdownText.toUTF8)]⟩ }

theorem countdown_dominated :
    ∃ result after module earlier, file [] {} 2 "main.krk" "" countdown = .ok result after ∧
      after.registry.registrations = module :: earlier ∧
      ∀ function ∈ module.code.functions, IR.Block.Dominated function.blocks := by
  have located : countdown.files.absolute "main.krk" = "/main.krk" := rfl
  have isNew : countdown.registry.idOfFile? "/main.krk" = none := rfl
  have readable : countdown.files.stat "/main.krk" = .ok (.file countdownText.toUTF8) := rfl
  have settled : settledAll (statementsOf [] 1 "/main.krk" (effectiveId "/main.krk" "")
      countdownText.toUTF8 countdown) (some []) = true := by
    decide +kernel
  have succeeds : (match file [] {} 2 "main.krk" "" countdown with
      | .ok _ _ => true
      | .error _ _ => false) = true := by
    decide +kernel
  cases outcome : file [] {} 2 "main.krk" "" countdown with
  | error failure after =>
    rw [outcome] at succeeds
    cases succeeds
  | ok result after =>
    obtain ⟨module, earlier, registered, dominated⟩ :=
      file_dominated located isNew readable settled outcome
    exact ⟨result, after, module, earlier, rfl, registered, dominated⟩

end Kronk.Compile
