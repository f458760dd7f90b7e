import Kronk.Proofs.Compilation

/-!
# The course of a lowering

A lowering can be followed with its inclusions left open: it runs until it asks for an included
file, and goes on with what the compilation of that file comes to.  `Course` is such a run, and
`Outline` a lowering that takes such a course from every bench.  The statements of a file have an
outline each; answering its calls by a way of compiling included files gives the lowering itself.
-/

namespace Kronk

/-- What a session knows of files: the tree, and the ids that files are bound to. -/
structure Places where
  files : FileTree
  ids : Table String

def Session.places (session : Session) : Places := ⟨session.files, session.registry.files⟩

namespace Compile

open Lowering Source

variable {α β : Type}

/-- A run with its inclusions left open: it has ended, or it asks for an included file and goes on
from the answer that it is given. -/
inductive Course (α : Type) where
  | ended (result : EStateM.Result Failure Workbench α)
  | asks (call : Call) (resume : EStateM.Result Failure Workbench Unit → Course α)

namespace Course

/-- What the run comes to if its calls are answered. -/
def answered (compileIncluded : String → String → Nat → Lower Unit) :
    Course α → EStateM.Result Failure Workbench α
  | ended result => result
  | asks call resume => (resume (call.answer compileIncluded)).answered compileIncluded

/-- The calls of the run in their order. -/
def calls (compileIncluded : String → String → Nat → Lower Unit) : Course α → List Call
  | ended _ => []
  | asks call resume =>
    call :: (resume (call.answer compileIncluded)).calls compileIncluded

def bind (next : α → Workbench → Course β) : Course α → Course β
  | ended (.ok value bench) => next value bench
  | ended (.error failure bench) => ended (.error failure bench)
  | asks call resume => asks call fun answer => (resume answer).bind next

/-- The run with its code looked through where it ends. -/
def checked : Course Unit → Course Unit
  | ended result => ended (examined result)
  | asks call resume => asks call fun answer => (resume answer).checked

theorem answered_bind (compileIncluded : Includer) (course : Course α)
    (next : α → Workbench → Course β) :
    (course.bind next).answered compileIncluded =
      match course.answered compileIncluded with
      | .ok value bench => (next value bench).answered compileIncluded
      | .error failure bench => .error failure bench := by
  induction course with
  | ended result => cases result <;> rfl
  | asks call resume ih => exact ih _

theorem calls_bind (compileIncluded : Includer) (course : Course α)
    (next : α → Workbench → Course β) :
    (course.bind next).calls compileIncluded = course.calls compileIncluded ++
      match course.answered compileIncluded with
      | .ok value bench => (next value bench).calls compileIncluded
      | .error _ _ => [] := by
  induction course with
  | ended result => cases result <;> rfl
  | asks call resume ih => exact congrArg (call :: ·) (ih _)

theorem answered_checked (compileIncluded : Includer) (course : Course Unit) :
    course.checked.answered compileIncluded = examined (course.answered compileIncluded) := by
  induction course with
  | ended result => rfl
  | asks call resume ih => exact ih _

/-- Only the answers to its own calls matter to a run. -/
theorem answered_congr {compileIncluded other : Includer} {course : Course α}
    (same : ∀ call ∈ course.calls compileIncluded,
      call.answer other = call.answer compileIncluded) :
    course.answered other = course.answered compileIncluded := by
  induction course with
  | ended result => rfl
  | asks call resume ih =>
    rw [answered, answered, same call (by simp [calls])]
    exact ih _ fun later member => same later (List.mem_cons_of_mem call member)

end Course

/-- Looking the code through changes nothing but what is told. -/
theorem finalState_examined (result : EStateM.Result Failure Workbench Unit) :
    finalState (examined result) = finalState result := by
  cases result with
  | ok _ after =>
    unfold examined
    cases refused : after.frame.draft.refusal? <;> simp only [refused] <;> rfl
  | error failure after => rfl

/-! ## Files along a course -/

/-- What a bench knows of files, and the id of its module. -/
def standing (bench : Workbench) : Places × String :=
  (bench.session.places, bench.frame.module.id)

/-- Where the run asks or ends, a bench stands in `place`; after a call the run goes on from where
the bench of the answer stands. -/
inductive Course.Along : Places × String → Course α → Prop where
  | ended {place : Places × String} {result : EStateM.Result Failure Workbench α} :
      standing (finalState result) = place → Along place (.ended result)
  | asks {place : Places × String} {call : Call}
      {resume : EStateM.Result Failure Workbench Unit → Course α} :
      standing call.bench = place →
      (∀ answer, Along (standing (finalState answer)) (resume answer)) →
      Along place (.asks call resume)

variable {place : Places × String}

theorem Course.Along.bind {course : Course α} {next : α → Workbench → Course β}
    (along : course.Along place)
    (continues : ∀ value bench, (next value bench).Along (standing bench)) :
    (course.bind next).Along place := by
  induction along with
  | @ended place result same =>
    cases result with
    | ok value bench =>
      cases same
      exact continues value bench
    | error failure bench => exact .ended same
  | asks same _ ih => exact .asks same ih

theorem Course.Along.checked {course : Course Unit} (along : course.Along place) :
    course.checked.Along place := by
  induction along with
  | @ended place result same =>
    refine .ended ?_
    rw [finalState_examined]
    exact same
  | asks same _ ih => exact .asks same ih

/-! ## Outlines -/

/-- A lowering with its inclusions left open. -/
def Outline (α : Type) := Workbench → Course α

instance : Monad Outline where
  pure value := fun bench => .ended (.ok value bench)
  bind outline next := fun bench => (outline bench).bind next

namespace Outline

def of (lowering : Lower α) : Outline α := fun bench => .ended (lowering bench)

/-- Answering the calls of the outline gives the lowering. -/
def Outlines (outline : Outline α)
    (lowering : (String → String → Nat → Lower Unit) → Lower α) : Prop :=
  ∀ compileIncluded bench,
    lowering compileIncluded bench = (outline bench).answered compileIncluded

/-- The lowering itself changes nothing about files, nor about which module is in the making. -/
def Steady (outline : Outline α) : Prop :=
  ∀ bench, (outline bench).Along (standing bench)

theorem outlines_of (lowering : Lower α) : (of lowering).Outlines fun _ => lowering :=
  fun _ _ => rfl

theorem Outlines.bind {outline : Outline α} {next : α → Outline β} {lowering : Includer → Lower α}
    {following : Includer → α → Lower β} (starts : outline.Outlines lowering)
    (continues : ∀ value, (next value).Outlines fun compileIncluded =>
      following compileIncluded value) : (outline >>= next).Outlines fun compileIncluded =>
      lowering compileIncluded >>= following compileIncluded := by
  intro compileIncluded bench
  have joined := Course.answered_bind compileIncluded (outline bench) next
  rw [← starts compileIncluded bench] at joined
  refine Eq.trans ?_ joined.symm
  change EStateM.bind _ _ bench = _
  unfold EStateM.bind
  cases lowering compileIncluded bench with
  | ok value between => exact continues value compileIncluded between
  | error failure between => rfl

/-! ## The outlines of statements -/

/-- An include statement: one that names a file under a new alias asks for it. -/
def inclusion (written : Include) : Outline Unit := fun bench =>
  let refused := .ended (Lowering.inclusion (fun _ _ _ => pure ()) written bench)
  match written.target with
  | .runtime _ => refused
  | .file path =>
    if written.id ∈ bench.frame.module.dependencies then refused
    else .asks (Call.of written path bench) fun
      | .ok _ after => .ended (.ok () (withLog (withDependency after written.id)
          (after.session.log.trace ("Successfully compiled included module " ++
            Name.includeId bench.frame.module.id written.id))))
      | .error failure after => .ended (.error failure after)

def functionDefinition (line : Nat) (prototype : Prototype) (body : Outline Unit) :
    Outline Unit := do
  let suspended ← of (enterFunction line prototype)
  body
  of (leaveFunction suspended)

def conditional (condition : Fragment) (consequent alternative : Outline Unit) :
    Outline Unit := do
  let holds ← of (conditionValue condition)
  let arms ← of (Lower.emit (openArms holds))
  consequent
  of (Lower.emit (turnArms arms))
  alternative
  of (Lower.emit (closeArms arms))

def loop (condition : Fragment) (body : Outline Unit) : Outline Unit := do
  let round ← of (Lower.emit openLoop)
  let holds ← of (conditionValue condition)
  of (Lower.emit (enterLoop round holds))
  body
  of (Lower.emit (closeLoop round))

mutual

def statement : Stmt → Outline Unit
  | .declaration line name type => of (Lowering.declaration line name type)
  | .initialisation _ name value => of (Lowering.initialisation name (lower value))
  | .entity definition => of (Lowering.entityDefinition definition)
  | .function line prototype body => functionDefinition line prototype (block body)
  | .result line value => of (Lowering.resultStatement line (value.map lower))
  | .conditional _ condition consequent rest =>
    conditional (lower condition) (block consequent) (alternative rest)
  | .loop _ condition body => loop (lower condition) (block body)
  | .inclusion written => inclusion written
  | .expression value => of do
    let _ ← (lower value).load

def block : Block → Outline Unit
  | .mk _ body => statements body

/-- The outline of statements up to the first one that leaves the function. -/
def statements : List Stmt → Outline Unit
  | [] => pure ()
  | first :: rest => do
    statement first
    if !first.isResult then statements rest else pure ()

def alternative : Alternative → Outline Unit
  | .absent => pure ()
  | .block body => block body
  | .conditional _ condition consequent rest =>
    conditional (lower condition) (block consequent) (alternative rest)

end

def checked (outline : Outline Unit) : Outline Unit := fun bench => (outline bench).checked

def recorded (after : Reading) : Lower Unit := do
  Lower.modifyModule fun module => { module with signatures := after.signatures }
  modify fun bench => { bench with session := bench.session.traceAll after.trace }

/-- Records that a statement was read. -/
def dumped (written : Stmt) : Lower Unit :=
  modify fun bench =>
    let log := bench.session.log.dump "statement" (bench.session.showStatement written)
    { bench with session := { bench.session with log := log } }

/-- The outline of the statements of a file from a reading on. -/
def file : (fuel : Nat) → Reading → Outline Unit
  | 0, _ => of (throw .outOfFuel)
  | fuel + 1, reading => do
    let bench ← of get
    match readNext reading bench with
    | .error failure after => of do
      recorded after
      throw failure
    | .ok none after => of (recorded after)
    | .ok (some written) after =>
      of (recorded after)
      of (dumped written)
      checked (statement written)
      file fuel after

def body (text : String) : Outline Unit := do
  let bench ← of get
  let module := bench.frame.module
  let scan := Token.scan text
  match Reading.start ⟨module.file, module, bench.session.registry⟩ scan {} with
  | .error failure _ => of (throw failure)
  | .ok _ reading => file (scan.tokens.length + 1) reading

/-! ## Outlines and lowerings -/

theorem outlines_inclusion (written : Include) : (inclusion written).Outlines fun compileIncluded =>
      Lowering.inclusion compileIncluded written := by
  intro compileIncluded bench
  unfold inclusion
  cases named : written.target with
  | runtime name =>
    simp only [Course.answered, Lowering.inclusion, named]
  | file path =>
    dsimp only
    split
    · rename_i repeated
      have known : bench.frame.module.hasDependency written.id = true :=
        List.contains_iff_mem.mpr repeated
      simp only [Course.answered, Lowering.inclusion, Lower.currentModule, bind, EStateM.bind,
        get_apply, pure, EStateM.pure, known, if_true]
      rfl
    · rename_i unused
      rw [inclusion_file named unused]
      cases answer : (Call.of written path bench).answer compileIncluded <;>
        simp only [Course.answered, answer]

/-- Answering the calls of the outline gives the lowering, which stands where it stood except for
its calls. -/
structure Sketches (outline : Outline α) (lowering : Includer → Lower α) : Prop where
  outlines : outline.Outlines lowering
  steady : outline.Steady

namespace Sketches

theorem bind {outline : Outline α} {next : α → Outline β} {lowering : Includer → Lower α}
    {following : Includer → α → Lower β} (starts : outline.Sketches lowering)
    (continues : ∀ value, (next value).Sketches fun compileIncluded =>
      following compileIncluded value) : (outline >>= next).Sketches fun compileIncluded =>
      lowering compileIncluded >>= following compileIncluded :=
  ⟨starts.outlines.bind fun value => (continues value).outlines,
    fun bench => (starts.steady bench).bind fun value => (continues value).steady⟩

theorem of_preserves {lowering : Lower α}
    (preserves : ∀ place, Preserves (fun bench => standing bench = place)
      (fun bench => standing bench = place) lowering) :
    (of lowering).Sketches fun _ => lowering :=
  ⟨outlines_of lowering, fun bench => .ended ((preserves (standing bench)).final rfl)⟩

theorem calm (place : Places × String) : Calm (fun bench => standing bench = place)
    (fun bench => standing bench = place) where
  quiet before after quiet same := by
    rw [← same]
    simp only [standing, Session.places, quiet.files, quiet.registry, quiet.id]
  breaks _ same := same

theorem framed {lowering : Lower α} (framed : Framed (fun _ => True) lowering) :
    (of lowering).Sketches fun _ => lowering :=
  of_preserves fun place => (calm place).placid.framed framed

theorem inclusion (written : Include) : (Outline.inclusion written).Sketches fun compileIncluded =>
    Lowering.inclusion compileIncluded written := by
  refine ⟨outlines_inclusion written, fun bench => ?_⟩
  have refused : standing (finalState (Lowering.inclusion (fun _ _ _ => Pure.pure ()) written
      bench)) = standing bench := by
    generalize result : Lowering.inclusion (fun _ _ _ => Pure.pure ()) written bench = outcome
    have cases_ := inclusion_cases (fun _ _ _ => Pure.pure ()) written bench
    rw [result] at cases_
    cases cases_ with
    | refused => rfl
    | runtime _ _ _ => rfl
    | failed _ failed => cases failed
    | included _ compiled =>
      cases compiled
      rfl
  unfold Outline.inclusion
  cases written.target with
  | runtime name => exact .ended refused
  | file path =>
    dsimp only
    split
    · exact .ended refused
    · refine .asks rfl fun answer => ?_
      cases answer <;> exact .ended rfl

theorem conditional (value : Expr) {consequent alternative : Outline Unit}
    {first second : Includer → Lower Unit}
    (sketchesFirst : consequent.Sketches first) (sketchesSecond : alternative.Sketches second) :
    (Outline.conditional (lower value) consequent alternative).Sketches fun compileIncluded =>
      Lowering.conditional (lower value) (first compileIncluded) (second compileIncluded) := by
  refine (framed (.consults (.conditionValue (evaluates_lower value)))).bind fun _ => ?_
  refine (framed (.emit _)).bind fun _ => sketchesFirst.bind fun _ => ?_
  exact (framed (.emit _)).bind fun _ => sketchesSecond.bind fun _ => framed (.emit _)

mutual

theorem statement (stmt : Stmt) : (Outline.statement stmt).Sketches fun compileIncluded =>
    Lowering.statement compileIncluded stmt := by
  cases stmt with
  | declaration line name type => exact framed (.declaration line name type.consults_all)
  | initialisation line name value => exact framed (.initialisation name (evaluates_lower value))
  | entity definition => exact of_preserves fun place => (calm place).entityDefinition definition
  | function line prototype body =>
    refine (framed (.enterFunction line prototype.consults_all)).bind fun suspended => ?_
    exact (block body).bind fun _ => framed (.leaveFunction suspended)
  | result line value =>
    have known := consults_map_lower (consultsOption_all value)
    exact framed (.consults (.resultStatement line known))
  | conditional line value consequent rest =>
    exact conditional value (block consequent) (alternative rest)
  | loop line value body =>
    refine (framed (.emit _)).bind fun _ => ?_
    refine (framed (.consults (.conditionValue (evaluates_lower value)))).bind fun _ => ?_
    exact (framed (.emit _)).bind fun _ => (block body).bind fun _ => framed (.emit _)
  | inclusion written => exact inclusion written
  | expression value =>
    exact framed (.bind (.consults (evaluates_lower value).load) fun _ => .pure _)

theorem block (body : Block) : (Outline.block body).Sketches fun compileIncluded =>
    Lowering.block compileIncluded body := by
  cases body with
  | mk line body => exact statements body

theorem statements (body : List Stmt) : (Outline.statements body).Sketches fun compileIncluded =>
    Lowering.statements compileIncluded body := by
  cases body with
  | nil => exact framed (.pure _)
  | cons first rest =>
    refine (statement first).bind fun _ => ?_
    split
    · exact statements rest
    · exact framed (.pure _)

theorem alternative (rest : Alternative) : (Outline.alternative rest).Sketches
    fun compileIncluded =>
    Lowering.alternative compileIncluded rest := by
  cases rest with
  | absent => exact framed (.pure _)
  | block body => exact block body
  | conditional line value consequent rest =>
    exact conditional value (block consequent) (alternative rest)

end

theorem checked {outline : Outline Unit} {lowering : Includer → Lower Unit}
    (sketches : outline.Sketches lowering) : (Outline.checked outline).Sketches
      fun compileIncluded => Compile.checked (lowering compileIncluded) := by
  refine ⟨fun compileIncluded bench => ?_, fun bench => (sketches.steady bench).checked⟩
  rw [Outline.checked, Course.answered_checked, Compile.checked,
    sketches.outlines compileIncluded bench]

theorem recorded (after : Reading) :
    (of (Outline.recorded after)).Sketches fun _ => Outline.recorded after :=
  of_preserves fun place => finished_preserves (calm place) after

theorem file (fuel : Nat) (reading : Reading) :
    (Outline.file fuel reading).Sketches fun compileIncluded =>
      Compile.statements compileIncluded fuel reading := by
  induction fuel generalizing reading with
  | zero => exact of_preserves fun _ => .throw (fun _ same => same) _
  | succ fuel ih =>
    refine (of_preserves fun _ => .get).bind fun bench => ?_
    unfold readNext
    dsimp only
    generalize Reading.statement _ _ = outcome
    match outcome with
    | .error failure after =>
      refine of_preserves fun place => ?_
      exact .bind (finished_preserves (calm place) after) fun _ => .throw (fun _ same => same) _
    | .ok none after => exact recorded after
    | .ok (some written) after =>
      refine (recorded after).bind fun _ => .bind (of_preserves fun place => ?_) fun _ =>
        (statement written).checked.bind fun _ => ih after
      exact (calm place).modify fun _ => (still_log (.dump _ _ _)).toQuiet

/-- The text of a file takes the course of its outline, and changes nothing about files, the
included ones apart. -/
theorem body (text : String) : (Outline.body text).Sketches fun compileIncluded =>
    Compile.body compileIncluded text := by
  refine (of_preserves fun _ => .get).bind fun bench => ?_
  dsimp only
  generalize Reading.start _ _ _ = outcome
  cases outcome with
  | error failure reading => exact of_preserves fun _ => .throw (fun _ same => same) _
  | ok _ reading => exact file _ reading

end Sketches

end Outline

end Compile

end Kronk
