import Kronk.Proofs.EntityTables

/-!
# Well-formed control flow

Every statement of a file is lowered at a place where the current block has no terminator, and
unless it leaves the function, lowering goes on from such a place.  So nothing is written to a block
that has ended, and when the file is finished every block of every function has ended.

The main statement is `Compile.file_wellFormed`.
-/

namespace Kronk.Source

/-- The statements after the first block of a conditional; a further condition is a conditional of
its own. -/
def Alternative.statements : Alternative → List Stmt
  | .absent => []
  | .block body => body.statements
  | .conditional line condition consequent rest => [.conditional line condition consequent rest]

theorem Block.mem_within {body : Block} {part : Stmt} (member : part ∈ withinAll body.statements) :
    part ∈ body.within := by
  cases body with
  | mk line body => exact member

/-- The statements after the first block of a conditional belong to a module if the statements
within them do. -/
theorem Alternative.belongs {rest : Alternative} {module : String}
    (belongs : ∀ part ∈ rest.within, part.BelongsTo module) :
    ∀ part ∈ withinAll rest.statements, part.BelongsTo module := by
  intro part member
  cases rest with
  | absent => cases member
  | block body => exact belongs part (Block.mem_within member)
  | conditional line condition consequent rest =>
    have member : part ∈ .conditional line condition consequent rest ::
        (consequent.within ++ rest.within) ++ [] := member
    rw [List.append_nil] at member
    rcases List.mem_cons.mp member with rfl | inside
    · trivial
    · exact belongs part inside

end Kronk.Source

namespace Kronk.Lowering

open Source (Stmt Settled)

/-! ## Between two statements -/

/-- Lowering statements from a bench on comes to a statement, which it lowers at another bench. -/
inductive Comes (compileIncluded : String → String → Nat → Lower Unit) (stmt : Stmt)
    (place : Workbench) : List Stmt → Workbench → Prop where
  | here (rest : List Stmt) : Comes compileIncluded stmt place (stmt :: rest) place
  | later {first : Stmt} {rest : List Stmt} {bench next : Workbench}
      (goesOn : first.isResult = false)
        (lowers : statement compileIncluded first bench = .ok () next)
      (comes : Comes compileIncluded stmt place rest next) :
      Comes compileIncluded stmt place (first :: rest) bench
  | function {line : Nat} {prototype : Source.Prototype} {body : Source.Block} {rest : List Stmt}
      {bench entered : Workbench} {suspended : Suspension}
      (enters : enterFunction line prototype bench = .ok suspended entered)
      (comes : Comes compileIncluded stmt place body.statements entered) :
      Comes compileIncluded stmt place (.function line prototype body :: rest) bench
  | consequent {line : Nat} {condition : Source.Expr} {body : Source.Block}
      {alternative : Source.Alternative} {rest : List Stmt} {bench tested entered : Workbench}
      {holds : IR.Value} {arms : Arms}
      (tests : conditionValue (lower condition) bench = .ok holds tested)
      (opens : Lower.emit (openArms holds) tested = .ok arms entered)
      (comes : Comes compileIncluded stmt place body.statements entered) :
      Comes compileIncluded stmt place (.conditional line condition body alternative :: rest) bench
  | alternative {line : Nat} {condition : Source.Expr} {body : Source.Block}
      {alternative : Source.Alternative} {rest : List Stmt}
      {bench tested entered middle turned : Workbench} {holds : IR.Value} {arms : Arms}
      (tests : conditionValue (lower condition) bench = .ok holds tested)
      (opens : Lower.emit (openArms holds) tested = .ok arms entered)
      (lowers : block compileIncluded body entered = .ok () middle)
      (turns : Lower.emit (turnArms arms) middle = .ok () turned)
      (comes : Comes compileIncluded stmt place alternative.statements turned) :
      Comes compileIncluded stmt place (.conditional line condition body alternative :: rest) bench
  | loop {line : Nat} {condition : Source.Expr} {body : Source.Block} {rest : List Stmt}
      {bench opened tested inside : Workbench} {round : Round} {holds : IR.Value}
      (opens : Lower.emit openLoop bench = .ok round opened)
      (tests : conditionValue (lower condition) opened = .ok holds tested)
      (enters : Lower.emit (enterLoop round holds) tested = .ok () inside)
      (comes : Comes compileIncluded stmt place body.statements inside) :
      Comes compileIncluded stmt place (.loop line condition body :: rest) bench

section Reached

variable {compileIncluded : Includer} {part : Stmt}

theorem conditional_cases {condition : Fragment} {consequent alternative : Lower Unit}
    {before after : Workbench}
    (outcome : conditional condition consequent alternative before = .ok () after) :
    ∃ holds tested arms entered middle turned last,
      conditionValue condition before = .ok holds tested ∧
      Lower.emit (openArms holds) tested = .ok arms entered ∧ consequent entered = .ok () middle ∧
      Lower.emit (turnArms arms) middle = .ok () turned ∧ alternative turned = .ok () last ∧
      Lower.emit (closeArms arms) last = .ok () after := by
  obtain ⟨holds, tested, tests, outcome⟩ := bind_eq_ok outcome
  obtain ⟨arms, entered, opens, outcome⟩ := bind_eq_ok outcome
  obtain ⟨⟨⟩, middle, lowers, outcome⟩ := bind_eq_ok outcome
  obtain ⟨⟨⟩, turned, turns, outcome⟩ := bind_eq_ok outcome
  obtain ⟨⟨⟩, last, lowersOn, closes⟩ := bind_eq_ok outcome
  exact ⟨holds, tested, arms, entered, middle, turned, last, tests, opens, lowers, turns, lowersOn,
    closes⟩

/-- A statement is lowered where lowering comes to it. -/
def IsLowered (compileIncluded : String → String → Nat → Lower Unit) (body : List Stmt)
    (bench : Workbench) (part : Stmt) : Prop :=
  ∃ place next, Comes compileIncluded part place body bench ∧
    statement compileIncluded part place = .ok () next

mutual

/-- Lowering comes to every statement that is reached. -/
theorem statement_lowers (stmt : Stmt) (rest : List Stmt) {before after : Workbench}
    (outcome : statement compileIncluded stmt before = .ok () after)
    (reached : part ∈ stmt.reached) :
    IsLowered compileIncluded (stmt :: rest) before part := by
  cases stmt with
  | function line prototype body =>
    rcases List.mem_cons.mp reached with rfl | inside
    · exact ⟨before, after, .here rest, outcome⟩
    · obtain ⟨suspended, entered, enters, outcome⟩ := bind_eq_ok (by exact outcome)
      obtain ⟨⟨⟩, last, lowers, _⟩ := bind_eq_ok outcome
      obtain ⟨place, next, comes, lowered⟩ := block_lowers body lowers inside
      exact ⟨place, next, .function enters comes, lowered⟩
  | conditional line condition consequent alternative =>
    rcases List.mem_cons.mp reached with rfl | inside
    · exact ⟨before, after, .here rest, outcome⟩
    · obtain ⟨holds, tested, arms, entered, middle, turned, last, tests, opens, lowers, turns,
        lowersOn, _⟩ := conditional_cases (by exact outcome)
      rcases List.mem_append.mp inside with first | second
      · obtain ⟨place, next, comes, lowered⟩ := block_lowers consequent lowers first
        exact ⟨place, next, .consequent tests opens comes, lowered⟩
      · obtain ⟨place, next, comes, lowered⟩ := alternative_lowers alternative lowersOn second
        exact ⟨place, next, .alternative tests opens lowers turns comes, lowered⟩
  | loop line condition body =>
    rcases List.mem_cons.mp reached with rfl | inside
    · exact ⟨before, after, .here rest, outcome⟩
    · obtain ⟨round, opened, opens, outcome⟩ := bind_eq_ok (by exact outcome)
      obtain ⟨holds, tested, tests, outcome⟩ := bind_eq_ok outcome
      obtain ⟨⟨⟩, entered, enters, outcome⟩ := bind_eq_ok outcome
      obtain ⟨⟨⟩, last, lowers, _⟩ := bind_eq_ok outcome
      obtain ⟨place, next, comes, lowered⟩ := block_lowers body lowers inside
      exact ⟨place, next, .loop opens tests enters comes, lowered⟩
  | _ =>
    rw [List.mem_singleton.mp reached]
    exact ⟨before, after, .here rest, outcome⟩

theorem block_lowers (body : Source.Block) {before after : Workbench}
    (outcome : block compileIncluded body before = .ok () after) (reached : part ∈ body.reached) :
    IsLowered compileIncluded body.statements before part := by
  cases body with
  | mk line body => exact statements_lowers body outcome reached

theorem statements_lowers (body : List Stmt) {before after : Workbench}
    (outcome : statements compileIncluded body before = .ok () after)
    (reached : part ∈ Source.reachedAll body) : IsLowered compileIncluded body before part := by
  cases body with
  | nil => cases reached
  | cons first rest =>
    rw [statements] at outcome
    obtain ⟨⟨⟩, middle, lowers, outcome⟩ := bind_eq_ok outcome
    rw [Source.reachedAll] at reached
    rcases List.mem_append.mp reached with inside | later
    · exact statement_lowers first rest lowers inside
    · cases goesOn : first.isResult with
      | true =>
        rw [goesOn] at later
        cases later
      | false =>
        rw [goesOn] at later outcome
        obtain ⟨place, next, comes, lowered⟩ := statements_lowers rest (by exact outcome) later
        exact ⟨place, next, .later goesOn lowers comes, lowered⟩

theorem alternative_lowers (rest : Source.Alternative) {before after : Workbench}
    (outcome : alternative compileIncluded rest before = .ok () after)
    (reached : part ∈ rest.reached) : IsLowered compileIncluded rest.statements before part := by
  cases rest with
  | absent => cases reached
  | block body => exact block_lowers body outcome reached
  | conditional line condition consequent rest =>
    obtain ⟨holds, tested, arms, entered, middle, turned, last, tests, opens, lowers, turns,
      lowersOn, _⟩ := conditional_cases (by exact outcome)
    rcases List.mem_append.mp reached with first | second
    · obtain ⟨place, next, comes, lowered⟩ := block_lowers consequent lowers first
      exact ⟨place, next, .consequent tests opens comes, lowered⟩
    · obtain ⟨place, next, comes, lowered⟩ := alternative_lowers rest lowersOn second
      exact ⟨place, next, .alternative tests opens lowers turns comes, lowered⟩

end

end Reached

/-- Lowering goes on in the same function and the same scopes, at a block that has not ended; only
declared names are bound anew. -/
structure LeavesOpen (declared : List String) (before after : Workbench) : Prop where
  isOpen : after.frame.draft.hasOpenBlock = true
  function : after.frame.draft.place.function = before.frame.draft.place.function
  activation : after.activation? = before.activation?
  depth : after.frame.scopes.length = before.frame.scopes.length
  outer : after.frame.scopes.tail = before.frame.scopes.tail
  binding : ∀ name, name ∉ declared → after.binding? name = before.binding? name

section Between

variable {compileIncluded : Includer} {module : String}

variable {exit : String}

theorem Stands.conditionValue {before tested : Workbench} {holds : IR.Value}
    (stands : Stands False exit before) (condition : Source.Expr)
    (tests : Lowering.conditionValue (lower condition) before = .ok holds tested) :
    ∃ test, Proceeds False exit [] before (.straight test) tested := by
  have draws : ∀ names known, condition.mentions ⊆ names → Knows known [] →
      Draws names known (Lowering.conditionValue (lower condition)) fun more holds =>
        Known more holds :=
    fun names known mentioned _ => Draws.conditionValue (draws_lower condition mentioned)
  obtain ⟨test, grows, guarded, keeps, _⟩ := Consults.straight
    (.conditionValue (evaluates_lower condition)) draws stands.ready stands.sound tests
  exact ⟨test, .straight stands grows guarded keeps⟩

/-- Where it is not asked which names are definite, every statement is settled. -/
theorem settled_loosely (isSettled : Bool) : Settled False none isSettled :=
  ⟨False.elim, fun _ => rfl⟩

/-- What lowering keeps from one place between two statements to another. -/
structure Lasting (compileIncluded : String → String → Nat → Lower Unit)
    (kept : Workbench → Prop) : Prop where
  goes : ∀ {before after}, Goes False [] before after → kept before → kept after
  statement : ∀ {exit module stmt before after}, Stands False exit before →
    (∀ part ∈ stmt.within, part.BelongsTo module) →
    statement compileIncluded stmt before = .ok () after → kept before → kept after
  block : ∀ {exit module body before after}, Stands False exit before →
    (∀ part ∈ body.within, part.BelongsTo module) →
    block compileIncluded body before = .ok () after → kept before → kept after
  enters : ∀ {exit module line prototype suspended before entered}, Stands False exit before →
    prototype.name = Name.ofFunction module prototype.symbol →
    enterFunction line prototype before = .ok suspended entered → kept entered

theorem Lasting.trivial : Lasting compileIncluded fun _ => True :=
  ⟨fun _ _ => .intro, fun _ _ _ _ => .intro, fun _ _ _ _ => .intro, fun _ _ _ => .intro⟩

/-- A statement that lowering comes to is lowered between two statements of a function, at a place
where everything holds that lowering keeps. -/
theorem Comes.stands (waits : Waits compileIncluded) {kept : Workbench → Prop}
    (lasting : Lasting compileIncluded kept) {stmt : Stmt} {place bench : Workbench}
    {body : List Stmt} (comes : Comes compileIncluded stmt place body bench)
    (stands : Stands False exit bench) (holdsHere : kept bench)
    (belongs : ∀ part ∈ Source.withinAll body, part.BelongsTo module) :
    (∃ around, Stands False around place) ∧ kept place ∧
      ∀ part ∈ stmt.within, part.BelongsTo module := by
  induction comes generalizing exit with
  | here rest =>
    exact ⟨⟨exit, stands⟩, holdsHere,
      fun part member => belongs part (List.mem_append_left _ member)⟩
  | @later first rest bench next goesOn lowers comes ih =>
    have belongsFirst : ∀ part ∈ first.within, part.BelongsTo module :=
      fun part member => belongs part (List.mem_append_left _ member)
    obtain ⟨code, proceeds, isLeaving, _⟩ := Advances.statement waits exit first none
      (settled_loosely _) belongsFirst bench next stands lowers
    exact ih (proceeds.stands stands (isLeaving.trans goesOn))
      (lasting.statement stands belongsFirst lowers holdsHere)
      fun part member => belongs part (List.mem_append_right _ member)
  | @function line prototype body rest bench entered suspended enters comes ih =>
    obtain ⟨mangled, _⟩ := belongs (.function line prototype body) List.mem_cons_self
    apply ih (stands.enterFunction mangled enters)
      (lasting.enters stands mangled enters)
    intro part member
    apply belongs part (List.mem_append_left _ (List.mem_cons_of_mem _ _))
    exact Source.Block.mem_within member
  | @consequent line condition body alternative rest bench tested entered holds arms tests opens
      comes ih =>
      obtain ⟨test, proceeds⟩ := stands.conditionValue condition tests
      obtain ⟨_, _, _, _, _, _, _, goes, standsFirst⟩ := (proceeds.stands stands rfl).openArms opens
      apply ih standsFirst (lasting.goes goes (lasting.goes proceeds.toGoes holdsHere))
      intro part member
      apply belongs part (List.mem_append_left _ (List.mem_cons_of_mem _ _))
      exact List.mem_append_left _ (Source.Block.mem_within member)
  | @alternative line condition body alternative rest bench tested entered middle turned holds arms
      tests opens lowers turns comes ih =>
      have inside : ∀ part ∈ body.within ++ alternative.within, part.BelongsTo module :=
        fun part member => belongs part (List.mem_append_left _ (List.mem_cons_of_mem _ member))
      obtain ⟨test, proceeds⟩ := stands.conditionValue condition tests
      obtain ⟨_, _, _, _, opened, rfl, draft, goes, standsFirst⟩ :=
        (proceeds.stands stands rfl).openArms opens
      have belongsBody : ∀ part ∈ body.within, part.BelongsTo module :=
        fun part member => inside part (List.mem_append_left _ member)
      obtain ⟨_, advances⟩ := Advances.block waits exit body none (settled_loosely _) belongsBody
      obtain ⟨code, proceedsOn, _⟩ := advances entered middle standsFirst lowers
      obtain ⟨_, goesOver, standsSecond⟩ := opened.turn draft standsFirst proceedsOn turns
      have holdsMiddle := lasting.block standsFirst belongsBody lowers
        (lasting.goes goes (lasting.goes proceeds.toGoes holdsHere))
      exact ih standsSecond (lasting.goes goesOver holdsMiddle)
        (Source.Alternative.belongs fun part member => inside part (List.mem_append_right _ member))
  | @loop line condition body rest bench entered tested inside round holds opens tests enters comes
      ih =>
      obtain ⟨_, _, _, _, opened, rfl, draft, goes, standsIn⟩ := stands.openLoop opens
      obtain ⟨test, proceeds⟩ := standsIn.conditionValue condition tests
      obtain ⟨_, goesOver, standsInside⟩ :=
        opened.enterLoop draft (proceeds.stands standsIn rfl) proceeds.builds enters
      apply ih standsInside (lasting.goes goesOver
        (lasting.goes proceeds.toGoes (lasting.goes goes holdsHere)))
      intro part member
      apply belongs part (List.mem_append_left _ (List.mem_cons_of_mem _ _))
      exact Source.Block.mem_within member

/-- After a statement that does not leave the function, lowering resumes. -/
theorem Stands.leavesOpen (waits : Waits compileIncluded) {stmt : Stmt} {place next : Workbench}
    (stands : Stands False exit place) (belongs : ∀ part ∈ stmt.within, part.BelongsTo module)
    (lowers : statement compileIncluded stmt place = .ok () next) (goesOn : stmt.isResult = false) :
    LeavesOpen stmt.declared place next := by
  obtain ⟨code, proceeds, isLeaving, _⟩ := Advances.statement waits exit stmt none
    (settled_loosely _) belongs place next stands lowers
  have ready := proceeds.builds.ready (isLeaving.trans goesOn)
  exact ⟨ready.isOpen.hasOpenBlock ready.labelled.valid, proceeds.function, proceeds.activation,
    proceeds.depth, proceeds.outer, proceeds.binding⟩

end Between

end Kronk.Lowering

namespace Kronk.Compile

open Lowering Source

/-- Reading and lowering from a bench on comes to a statement, which is lowered at another bench. -/
inductive Occurs (compileIncluded : String → String → Nat → Lower Unit) (stmt : Stmt)
    (place : Workbench) : (fuel : Nat) → Reading → Workbench → Prop where
  | here {fuel : Nat} {reading after : Reading} {bench noted : Workbench} {found : Stmt}
      (read : readNext reading bench = .ok (some found) after) (notes : Noted after bench noted)
      (comes : Comes compileIncluded stmt place [found] noted) :
      Occurs compileIncluded stmt place (fuel + 1) reading bench
  | later {fuel : Nat} {reading after : Reading} {bench next : Workbench} {found : Stmt}
      (read : readNext reading bench = .ok (some found) after)
      (lowers : lowerRead compileIncluded found after bench = .ok () next)
      (occurs : Occurs compileIncluded stmt place fuel after next) :
      Occurs compileIncluded stmt place (fuel + 1) reading bench

/-- A statement is lowered at a place while a text is read and lowered from a bench on. -/
def OccursIn (compileIncluded : String → String → Nat → Lower Unit) (text : String)
    (bench : Workbench) (stmt : Stmt) (place : Workbench) : Prop :=
  ∃ start, Reading.start ⟨bench.frame.module.file, bench.frame.module, bench.session.registry⟩
      (Token.scan text) {} = .ok () start ∧
    Occurs compileIncluded stmt place ((Token.scan text).tokens.length + 1) start bench

section Statements

variable {compileIncluded : Includer}

theorem Occurs.stands (waits : Waits compileIncluded) {kept : Workbench → Prop}
    (lasting : Lasting compileIncluded kept) {stmt : Stmt} {place bench : Workbench} {fuel : Nat}
    {reading : Reading} (occurs : Occurs compileIncluded stmt place fuel reading bench)
    (worded : reading.Worded) (stands : Stands False "ProgramExit" bench) (holds : kept bench) :
    ∃ module, (∃ around, Stands False around place) ∧ kept place ∧
      ∀ part ∈ stmt.within, part.BelongsTo module := by
  induction occurs with
  | here read notes comes =>
    obtain ⟨_, belongs⟩ := Reading.statement_belongs (by exact worded) read
    have standsNoted := (Passes.untouched notes.untouched stands).stands stands
    have holdsNoted := lasting.goes (notes.untouched.goes stands.sound) holds
    exact ⟨_, comes.stands waits lasting standsNoted holdsNoted fun part member =>
      belongs part (by simpa [withinAll] using member)⟩
  | @later fuel reading after bench next found read lowers occurs ih =>
    obtain ⟨recorded, belongs⟩ := Reading.statement_belongs (by exact worded) read
    obtain ⟨middle, notes, lowered⟩ := lowerRead_spec lowers
    have standsMiddle := (Passes.untouched notes.untouched stands).stands stands
    obtain ⟨code, proceeds, isLeaving, _⟩ := Advances.statement waits "ProgramExit" found none
      (settled_loosely _) belongs middle next standsMiddle lowered
    rw [isResult_of_program standsMiddle lowered] at isLeaving
    exact ih recorded.worded (proceeds.stands standsMiddle isLeaving)
      (lasting.statement standsMiddle belongs lowered
        (lasting.goes (notes.untouched.goes stands.sound) holds))

/-- Every statement that is reached occurs, and is lowered where it occurs. -/
theorem occurs_of_reached {fuel : Nat} {reading : Reading} {bench final : Workbench} {part : Stmt}
    (outcome : statements compileIncluded fuel reading bench = .ok () final)
    (reached : part ∈ (written compileIncluded fuel reading bench).flatMap Stmt.reached) :
    ∃ place next, Occurs compileIncluded part place fuel reading bench ∧
      statement compileIncluded part place = .ok () next := by
  induction fuel generalizing reading bench with
  | zero => cases outcome
  | succ fuel ih =>
    rcases statements_cases outcome with ⟨after, read, _⟩ |
      ⟨found, after, later, read, lowers, rest⟩
    · rw [written, read] at reached
      cases reached
    · rw [written_succ read lowers, List.flatMap_cons] at reached
      rcases List.mem_append.mp reached with here | beyond
      · obtain ⟨middle, notes, lowered⟩ := lowerRead_spec lowers
        obtain ⟨place, next, comes, isLowered⟩ := statement_lowers found [] lowered here
        exact ⟨place, next, .here read notes comes, isLowered⟩
      · obtain ⟨place, next, occurs, isLowered⟩ := ih rest beyond
        exact ⟨place, next, .later read lowers occurs, isLowered⟩

end Statements

/-! ## Finished modules -/

/-- Nothing was written to a block that had ended. -/
theorem strays_closing {draft : Draft} (ready : Ready "ProgramExit" draft) :
    (closing draft).2.strays = draft.strays := by
  have valid := ready.labelled.valid
  have validOpened : (withExit draft).Valid := Draft.Valid.mapBlocks valid
  have validJumped : ((withExit draft).ended (.jump "ProgramExit")).Valid :=
    Draft.Valid.mapBlocks validOpened
  have isOpen : (((withExit draft).ended (.jump "ProgramExit")).entering
      draft.blocks.length).IsOpen := by
    refine ⟨{ label := "ProgramExit" }, ?_, rfl⟩
    change ((withExit draft).ended (.jump "ProgramExit")).blocks[draft.blocks.length]? = _
    rw [blocks_ended validOpened, blocks_withExit valid]
    have other : (withExit draft).place.block ≠ draft.blocks.length := Nat.ne_of_lt ready.inside
    rw [IR.Block.getElem?_modify_other other.symm]
    simp
  rw [closing_eq ready, strays_ended (isOpen.hasOpenBlock (by exact validJumped))]
  change ((withExit draft).ended (.jump "ProgramExit")).strays = _
  rw [strays_ended ((isOpen_withExit ready).hasOpenBlock validOpened)]
  rfl

private theorem guarded_initial (id path : String) : (Frame.initial id path).draft.All Guarded := by
  intro block member
  have isFirst : block ∈ [({ label := "ProgramEntry" } : IR.Block)] := member
  rw [List.mem_singleton.mp isFirst]
  exact .nil

variable {session : Session} {id path text : String} {final : Workbench}
  {compileIncluded : Includer}

theorem finish_complete {declared : List String} {code : IR.Code}
    (proceeds : Proceeds False "ProgramExit" declared ⟨session, Frame.initial id path⟩ code final)
    (goesOn : code.leaves = false)
    (ranges : Ranges [] ⟨session, Frame.initial id path⟩ code final) (included : Bool) :
    ∀ function ∈ (final.frame.finish included).code.functions, Complete function := by
  obtain ⟨uses, _⟩ := ranges {} nofun (supplies_initial session id path)
  obtain ⟨since, _⟩ := proceeds.builds.jumping "ProgramExit"
  have initial : Comprises ["ProgramExit"] (Frame.initial id path).draft.blocks [0] [] [] :=
    .single (.inl (by decide))
  have built := proceeds.builds.comprises_jumping (.inl List.mem_cons_self) initial
  have closed := built.close since.labelled.exitUnused (.inl (by decide)) []
    (by rfl : (IR.Terminator.ret (some (.integer .i32 0))).targets = [])
  rw [← blocks_closing (proceeds.builds.ready goesOn)] at closed
  rw [List.nil_append, List.append_nil, List.nil_append] at closed
  intro function member
  rcases finish_cases (place_final proceeds) proceeds.sound.program member with
    ⟨same, named⟩ | ⟨index, here, other, found⟩
  · have exitThere : ∃ target ∈ function.blocks, target.label = "ProgramExit" := by
      rw [← same, blocks_closing (proceeds.builds.ready goesOn)]
      exact ⟨_, List.mem_append_right _ List.mem_cons_self, rfl⟩
    rw [same] at closed
    apply closed.complete
    · intro exit isExit
      rcases List.mem_append.mp isExit with isExit | isExit
      · rw [List.mem_singleton.mp isExit]
        exact exitThere
      · rw [IR.Code.eq_of_mem_exits isExit]
        exact exitThere
    · intro value member
      rw [← List.append_assoc] at member
      rcases List.mem_append.mp member with inside | isLast
      · exact (uses.operands value inside).mono ⟨by simp [Locals.results_append], List.nil_subset _⟩
      · rw [List.mem_singleton.mp isLast]
        trivial
    · rw [uses.slots]
      exact ⟨List.nil_subset _, List.nodup_nil⟩
    · have guarded := (closing_stays _).all .nil (proceeds.guarded (guarded_initial id path))
      rwa [Draft.All, same] at guarded
  · exact (proceeds.sound.finished index function here other found).2

/-- A text that can be lowered makes a module of complete functions, and nothing is written to a
block that has ended. -/
theorem body_complete (waits : Waits compileIncluded)
    (outcome : body compileIncluded text ⟨session, Frame.initial id path⟩ = .ok () final)
    (included : Bool) :
    (∀ function ∈ (final.frame.finish included).code.functions, Complete function) ∧
      (closing final.frame.draft).2.strays = 0 := by
  obtain ⟨start, _, worded, lowered, _⟩ := body_cases outcome
  obtain ⟨code, declared, later, proceeds, goesOn, _, ranges⟩ := statements_proceed waits worded
    (stands_initial False session id path) lowered none (settled_loosely _)
  refine ⟨finish_complete proceeds goesOn ranges included, ?_⟩
  rw [strays_closing (proceeds.builds.ready goesOn), proceeds.builds.strays]
  rfl

/-- Statements that occur in a text are followed by places where lowering resumes. -/
theorem OccursIn.leavesOpen {stmt : Stmt} {place next : Workbench} (waits : Waits compileIncluded)
    (occurs : OccursIn compileIncluded text ⟨session, Frame.initial id path⟩ stmt place)
    (lowers : statement compileIncluded stmt place = .ok () next) (goesOn : stmt.isResult = false) :
    LeavesOpen stmt.declared place next := by
  obtain ⟨start, started, occurs⟩ := occurs
  have worded := Reading.start_worded (Token.scanLines_worded 1 text.toList) started
  obtain ⟨module, ⟨around, stands⟩, _, belongs⟩ :=
    occurs.stands waits .trivial worded (stands_initial False session id path) trivial
  exact stands.leavesOpen waits belongs lowers goesOn

theorem occursIn_of_reached {bench : Workbench}
    (outcome : body compileIncluded text bench = .ok () final) {stmt : Stmt}
    (reached : stmt ∈ (writtenIn compileIncluded text bench).flatMap Stmt.reached) :
    ∃ place next, OccursIn compileIncluded text bench stmt place ∧
      statement compileIncluded stmt place = .ok () next := by
  obtain ⟨start, started, _, lowered, same⟩ := body_cases outcome
  rw [same] at reached
  obtain ⟨place, next, occurs, lowers⟩ := occurs_of_reached lowered reached
  exact ⟨place, next, ⟨start, started, occurs⟩, lowers⟩

/-! ## Every module -/

/-- Every function of every module has a property. -/
def Registry.All (good : IR.Function → Prop) (registry : Registry) : Prop :=
  ∀ module ∈ registry.registrations, ∀ function ∈ module.code.functions, good function

/-- Compiling a file keeps a property of functions that every complete function has. -/
theorem all_stable {good : IR.Function → Prop}
    (ofComplete : ∀ function, Complete function → good function) : Stable (Registry.All good) where
  duplicate _ added all := by
    obtain ⟨target, _, rfl⟩ := Option.map_eq_some_iff.mp added
    exact all
  recordFile _ _ all := all
  runtime id name all := by
    intro module member
    rcases List.mem_cons.mp member with rfl | earlier
    · intro function inside
      cases inside
    · exact all module earlier
  compiled _ lowered all := by
    intro module member
    rcases List.mem_cons.mp member with rfl | earlier
    · intro function inside
      exact ofComplete function
        ((body_complete (includer_waits _ _ _ _) lowered _).1 function inside)
    · exact all module earlier

/-- A statement is lowered, from one bench to another, while a file is compiled under an id. -/
def IsLoweredIn (waiting : List String) (fuel : Nat) (source id : String) (content : ByteArray)
    (session : Session) (stmt : Stmt) (before after : Workbench) : Prop :=
  OccursIn (includer waiting source id fuel) (Text.decode content)
      ⟨bound session source id, Frame.initial id source⟩ stmt before ∧
    statement (includer waiting source id fuel) stmt before = .ok () after

/-- A file that compiles is lowered without writing to a block that has ended.  Every statement that
is reached is lowered somewhere, and if it does not leave its function, lowering goes on in the same
function and scopes at a block that has not ended.  Every function of every module is well
formed. -/
theorem file_wellFormed {waiting : List String} {includedAt : Location} {fuel : Nat}
    {path id source key result : String} {session after : Session} {content : ByteArray}
    (located : session.files.absolute path = source) (named : effectiveId source id = key)
    (isNew : session.registry.idOfFile? source = none)
    (readable : session.files.stat source = .ok (.file content))
    (wellFormed : Registry.All WellFormed session.registry)
    (outcome : file waiting includedAt (fuel + 1) path id session = .ok result after) :
    Registry.All WellFormed after.registry ∧
      (∃ final earlier,
        lowering waiting fuel source key content
          ⟨bound session source key, Frame.initial key source⟩ = .ok () final ∧
        after.registry.registrations = final.frame.finish (!waiting.isEmpty) :: earlier ∧
        (closing final.frame.draft).2.strays = 0) ∧
      (∀ stmt ∈ (statementsOf waiting fuel source key content session).flatMap Stmt.reached,
        ∃ place next, IsLoweredIn waiting fuel source key content session stmt place next) ∧
      ∀ stmt place next, IsLoweredIn waiting fuel source key content session stmt place next →
        stmt.isResult = false → LeavesOpen stmt.declared place next := by
  have stable : Stable (Registry.All WellFormed) :=
    all_stable fun _ complete => complete.toWellFormed
  have all := (stable.file waiting includedAt (fuel + 1) path id).of_ok outcome wellFormed
  have cases := file_outcome waiting includedAt fuel path id session
  rw [outcome, located, named] at cases
  cases cases with
  | duplicate isBound _ _ =>
    rw [isNew] at isBound
    cases isBound
  | compiled _ isRead lowered =>
    rw [readable] at isRead
    cases isRead
    have waits := includer_waits waiting source key fuel
    refine ⟨all, ⟨_, _, lowered, rfl, (body_complete waits lowered false).2⟩, ?_, ?_⟩
    · intro stmt reached
      exact occursIn_of_reached lowered reached
    · rintro stmt place next ⟨occurs, lowers⟩ goesOn
      exact occurs.leavesOpen waits lowers goesOn

/-- A program with a function that leaves a loop and a conditional. -/
def searchText : String :=
  "fn f(a:reel) reel \x7b\nTantque a > 0 \x7b\nSi a == 1 \x7b\nret a\n\x7d\na = a - 1\n\x7d\n" ++
    "ret 0\n\x7d\nsoit n = f(2)\n"

def search : Session where
  files := { nodes := ⟨[("/main.krk", .file searchText.toUTF8)]⟩ }

/-- The program compiles to well-formed functions, and lowering resumes after its conditional,
although the conditional holds a result. -/
theorem search_wellFormed :
    ∃ result after, file [] {} 2 "main.krk" "" search = .ok result after ∧
      Registry.All WellFormed after.registry ∧
      ∃ line condition consequent rest before next,
        IsLoweredIn [] 1 "/main.krk" "main" searchText.toUTF8 search
          (.conditional line condition consequent rest) before next ∧
        LeavesOpen (consequent.declared ++ rest.declared) before next := by
  have located : search.files.absolute "main.krk" = "/main.krk" := rfl
  have named : effectiveId "/main.krk" "" = "main" := by decide +kernel
  have isNew : search.registry.idOfFile? "/main.krk" = none := rfl
  have readable : search.files.stat "/main.krk" = .ok (.file searchText.toUTF8) := rfl
  have wellFormed : Registry.All WellFormed search.registry := fun _ member => by cases member
  have branches : ((statementsOf [] 1 "/main.krk" "main" searchText.toUTF8 search).flatMap
      Stmt.reached).any (fun
        | .conditional .. => true
        | _ => false) = true := by
    decide +kernel
  have succeeds : succeedsIn (file [] {} 2 "main.krk" "" search) (fun _ => true) = true := by
    decide +kernel
  obtain ⟨result, after, outcome, _⟩ := exists_of_succeedsIn succeeds
  obtain ⟨all, -, occurring, resuming⟩ :=
    file_wellFormed located named isNew readable wellFormed outcome
  refine ⟨result, after, outcome, all, ?_⟩
  obtain ⟨stmt, reached, isConditional⟩ := List.any_eq_true.mp branches
  obtain ⟨before, next, lowered⟩ := occurring stmt reached
  cases stmt with
  | conditional line condition consequent rest =>
    exact ⟨line, condition, consequent, rest, before, next, lowered,
      resuming _ before next lowered rfl⟩
  | _ => cases isConditional

end Kronk.Compile
