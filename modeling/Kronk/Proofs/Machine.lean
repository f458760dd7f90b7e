import Kronk.Proofs.ControlFlow
import Kronk.Proofs.Evaluation

/-!
# The machine that runs emitted code

A machine executes the blocks of a function on results, slots and a record of the calls it makes.
It knows the operations that work on scalars; it stops at any other one, and at a routine that does
not return.  Where blocks hold structured code, `returns_iff` says that the machine gets from the
first block to the last one exactly as the structured code executes.
-/

namespace Kronk.IR

variable {R : Type}

variable {entered firstBlock secondBlock : Nat}

/-! ## Operations -/

/-- The results and the slots of a function, and the calls made so far.  A slot that was not written
to holds nothing. -/
structure State (R : Type) where
  results : LocalName → Option (Datum R)
  memory : List (Option (Datum R))
  calls : List (RoutineCall R)

def State.initial : State R := ⟨fun _ => none, [], []⟩

/-- The text with a label among those from a position on. -/
def textFrom? (label : String) : (position : Nat) → List String → Option String
  | _, [] => none
  | position, content :: rest =>
    if Module.textLabel position = label then some content else textFrom? label (position + 1) rest

def Arithmetic.apply (meaning : Interpretation R) :
    Arithmetic → Datum R → Datum R → Option (Datum R)
  | .fadd, .real left, .real right => some (.real (meaning.plus left right))
  | .fsub, .real left, .real right => some (.real (meaning.minus left right))
  | .fmul, .real left, .real right => some (.real (meaning.times left right))
  | .fdiv, .real left, .real right => some (.real (meaning.divide left right))
  | .frem, .real left, .real right => some (.real (meaning.remainder left right))
  | .add, .word left, .word right => some (.word (left + right))
  | .sub, .word left, .word right => some (.word (left - right))
  | .mul, .word left, .word right => some (.word (left * right))
  | .shl, .word left, .word right => some (.word (meaning.shiftLeft left right))
  | .ashr, .word left, .word right => some (.word (meaning.shiftRight left right))
  | .and, .word left, .word right => some (.word (left &&& right))
  | .or, .word left, .word right => some (.word (left ||| right))
  | .xor, .word left, .word right => some (.word (left ^^^ right))
  | .and, .truth left, .truth right => some (.truth (left && right))
  | .or, .truth left, .truth right => some (.truth (left || right))
  | .xor, .truth left, .truth right => some (.truth (left ^^ right))
  | _, _, _ => none

def RealPredicate.apply (meaning : Interpretation R) : RealPredicate → R → R → Bool
  | .olt => meaning.less
  | .ogt => meaning.greater
  | .ole => meaning.lessEqual
  | .oge => meaning.greaterEqual
  | .oeq => meaning.equal
  | .one => meaning.notEqual

def compareData : Datum R → Datum R → Option Bool
  | .truth left, .truth right => some (left == right)
  | .word left, .word right => some (left == right)
  | _, _ => none

def Conversion.apply (meaning : Interpretation R) : Conversion → Ty → Datum R → Option (Datum R)
  | .fptosi, .i64, .real value => some (.word (meaning.toInteger value))
  | .sitofp, .double, .word value => some (.real (meaning.ofInteger value))
  | .zext, .i32, .truth value => some (.half (if value then 1 else 0))
  | _, _, _ => none

/-- What is left of an answer, by the type of the result. -/
def answered (answer : R) : Ty → Option (Option (Datum R))
  | .void => some none
  | .double => some (some (.real answer))
  | _ => none

section Execution

variable (meaning : Interpretation R) (texts : List String)

def Value.read (state : State R) : Value → Option (Datum R)
  | .boolean value => some (.truth value)
  | .integer .i64 value => some (.word (BitVec.ofInt 64 value))
  | .integer .i32 value => some (.half (BitVec.ofInt 32 value))
  | .real value => some (.real (meaning.literal value))
  | .text label _ => (textFrom? label 0 texts).map .text
  | .result name _ => state.results name
  | _ => none

def Value.slot? (state : State R) (value : Value) : Option Nat :=
  match value.read meaning texts state with
  | some (.address slot) => some slot
  | _ => none

def Value.truth? (state : State R) (value : Value) : Option Bool :=
  match value.read meaning texts state with
  | some (.truth holds) => some holds
  | _ => none

def Value.double? (state : State R) (value : Value) : Option R :=
  match value.read meaning texts state with
  | some (.real number) => some number
  | _ => none

def Operation.execute (state : State R) : Operation → Option (Option (Datum R) × State R)
  | .alloca _ none =>
    some (some (.address state.memory.length), { state with memory := state.memory ++ [none] })
  | .load _ address => do
    let slot ← address.slot? meaning texts state
    let content ← state.memory[slot]?
    return (some (← content), state)
  | .store value address => do
    let datum ← value.read meaning texts state
    let slot ← address.slot? meaning texts state
    if slot < state.memory.length then
      return (none, { state with memory := state.memory.set slot (some datum) })
    else none
  | .call callee arguments => do
    let data ← arguments.mapM (Value.read meaning texts state)
    let answer ← meaning.answer state.calls ⟨callee.name, data⟩
    let result ← answered answer callee.result
    return (result, { state with calls := state.calls ++ [⟨callee.name, data⟩] })
  | .arithmetic operator left right => do
    let first ← left.read meaning texts state
    let second ← right.read meaning texts state
    return (some (← operator.apply meaning first second), state)
  | .negate operand => do
    let number ← operand.double? meaning texts state
    return (some (.real (meaning.negate number)), state)
  | .compareReal predicate left right => do
    let first ← left.double? meaning texts state
    let second ← right.double? meaning texts state
    return (some (.truth (predicate.apply meaning first second)), state)
  | .compareEqual negated left right => do
    let first ← left.read meaning texts state
    let second ← right.read meaning texts state
    let same ← compareData first second
    return (some (.truth (same != negated)), state)
  | .convert conversion operand target => do
    let datum ← operand.read meaning texts state
    return (some (← conversion.apply meaning target datum), state)
  | _ => none

def State.define (state : State R) (name : LocalName) (datum : Option (Datum R)) : State R :=
  { state with results := fun other => if other = name then datum else state.results other }

def Instruction.execute (state : State R) (instruction : Instruction) : Option (State R) := do
  let (datum, after) ← instruction.operation.execute meaning texts state
  return instruction.result.elim after fun name => after.define name datum

def executeAll : List Instruction → State R → Option (State R)
  | [], state => some state
  | instruction :: rest, state => (instruction.execute meaning texts state).bind (executeAll rest)

/-! ## Blocks -/

def Terminator.target? (state : State R) : Terminator → Option String
  | .jump label => some label
  | .branch condition whenTrue whenFalse =>
    (condition.truth? meaning texts state).map fun holds => if holds then whenTrue else whenFalse
  | .ret _ => none

/-- One step of the machine: an instruction, or the way to another block. -/
def Block.step (blocks : List Block) (place : Position) (state : State R) :
    Option (Position × State R) := do
  let block ← blocks[place.block]?
  match block.instructions[place.offset]? with
  | some instruction => do
    let after ← instruction.execute meaning texts state
    return (⟨place.block, place.offset + 1⟩, after)
  | none => do
    let terminator ← block.terminator
    let label ← terminator.target? meaning texts state
    let entered ← position? blocks label
    return (⟨entered, 0⟩, state)

def Block.steps (blocks : List Block) :
    (count : Nat) → Position → State R → Option (Position × State R)
  | 0, place, state => some (place, state)
  | count + 1, place, state =>
    (Block.step meaning texts blocks place state).bind fun next =>
      Block.steps blocks count next.1 next.2

/-- The machine gets from one place to another. -/
def Block.Arrives (blocks : List Block) (place : Position) (state : State R) (goal : Position)
    (final : State R) : Prop :=
  ∃ count, Block.steps meaning texts blocks count place state = some (goal, final)

/-! ## Structured code -/

/-- The test of a loop: its code is executed, and its condition is read. -/
def testState (test : List Instruction) (condition : Value) (state : State R) :
    Option (Bool × State R) := do
  let tested ← executeAll meaning texts test state
  return (← condition.truth? meaning texts tested, tested)

/-- Structured code gets from its start to its end. -/
def Code.Executes : Code → State R → State R → Prop
  | .straight code => fun state final => executeAll meaning texts code state = some final
  | .seq first second => fun state final =>
    ∃ middle, first.Executes state middle ∧ second.Executes middle final
  | .leave => fun _ _ => False
  | .branch condition consequent alternative => fun state final =>
    ∃ holds, condition.truth? meaning texts state = some holds ∧
      if holds then consequent.Executes state final else alternative.Executes state final
  | .skip condition body => fun state final =>
    ∃ holds, condition.truth? meaning texts state = some holds ∧
      if holds then final = state else body.Executes state final
  | .loop test condition body => Rounds (testState meaning texts test condition) body.Executes

end Execution

/-- Whether structured code never leaves the function. -/
def Code.stays : Code → Bool
  | .straight _ => true
  | .seq first second => first.stays && second.stays
  | .leave => false
  | .branch _ consequent alternative => consequent.stays && alternative.stays
  | .skip _ body => body.stays
  | .loop _ _ body => body.stays

theorem Code.leaves_of_stays {code : Code} (stays : code.stays = true) : code.leaves = false := by
  induction code with
  | straight code => rfl
  | seq first second _ ih =>
    rw [Code.stays, Bool.and_eq_true] at stays
    exact ih stays.2
  | leave => cases stays
  | branch condition consequent alternative => rfl
  | skip condition body => rfl
  | loop test condition body => rfl

section Executions

variable {meaning : Interpretation R} {texts : List String}

@[simp] theorem Value.read_result (name : LocalName) (type : Ty) (state : State R) :
    (Value.result name type).read meaning texts state = state.results name :=
  rfl

@[simp] theorem Value.read_boolean (value : Bool) (state : State R) :
    (Value.boolean value).read meaning texts state = some (.truth value) :=
  rfl

@[simp] theorem Value.read_int64 (value : Int) (state : State R) :
    (Value.int64 value).read meaning texts state = some (.word (BitVec.ofInt 64 value)) :=
  rfl

@[simp] theorem State.results_define (state : State R) (name other : LocalName)
    (datum : Option (Datum R)) :
    (state.define name datum).results other = if other = name then datum else state.results other :=
  rfl

@[simp] theorem State.memory_define (state : State R) (name : LocalName)
    (datum : Option (Datum R)) : (state.define name datum).memory = state.memory :=
  rfl

@[simp] theorem State.calls_define (state : State R) (name : LocalName)
    (datum : Option (Datum R)) : (state.define name datum).calls = state.calls :=
  rfl

theorem executeAll_append (first second : List Instruction) (state : State R) :
    executeAll meaning texts (first ++ second) state =
      (executeAll meaning texts first state).bind (executeAll meaning texts second) := by
  induction first generalizing state with
  | nil => rfl
  | cons instruction rest ih =>
    change (instruction.execute meaning texts state).bind _ = _
    rw [executeAll, Option.bind_assoc]
    congr 1
    funext after
    exact ih after

theorem executeAll_singleton (instruction : Instruction) (state : State R) :
    executeAll meaning texts [instruction] state = instruction.execute meaning texts state := by
  simp [executeAll]

theorem Operation.results_of_execute {operation : Operation} {state after : State R}
    {datum : Option (Datum R)}
    (executed : operation.execute meaning texts state = some (datum, after)) :
    after.results = state.results := by
  cases operation with
  | alloca type count =>
    cases count with
    | none =>
      cases executed
      rfl
    | some count => cases executed
  | store value address =>
    simp only [execute, Option.bind_eq_bind, Option.bind_eq_some_iff] at executed
    obtain ⟨_, _, slot, _, stored⟩ := executed
    split at stored
    · cases stored
      rfl
    · cases stored
  | fieldPointer record base index field => cases executed
  | elementPointer element base index => cases executed
  | _ =>
    simp only [execute, Option.bind_eq_bind, Option.bind_eq_some_iff, Option.pure_def,
      Option.some.injEq, Prod.mk.injEq] at executed
    grind

/-- Straight code leaves the results alone that it does not define. -/
theorem results_of_executeAll {code : List Instruction} {state final : State R} {name : LocalName}
    (executed : executeAll meaning texts code state = some final) (absent : name ∉ results code) :
    final.results name = state.results name := by
  induction code generalizing state with
  | nil =>
    cases executed
    rfl
  | cons instruction rest ih =>
    obtain ⟨after, here, later⟩ := Option.bind_eq_some_iff.mp executed
    have absentLater : name ∉ results rest := by
      intro member
      apply absent
      rw [← List.singleton_append, results_append]
      exact List.mem_append_right _ member
    rw [ih later absentLater]
    obtain ⟨⟨datum, middle⟩, performed, same⟩ := Option.bind_eq_some_iff.mp here
    cases same
    have kept := Operation.results_of_execute performed
    cases named : instruction.result with
    | none => exact congrFun kept name
    | some defined =>
      have other : name ≠ defined := by
        rintro rfl
        apply absent
        simp [results, named]
      simp [State.define, other, kept]

/-! ## Laid code -/

namespace Block

variable {blocks : List Block} {exit : String}

theorem Arrives.refl (place : Position) (state : State R) :
    Arrives meaning texts blocks place state place state :=
  ⟨0, rfl⟩

private theorem steps_add (first second : Nat) (place : Position) (state : State R) :
    steps meaning texts blocks (first + second) place state =
      (steps meaning texts blocks first place state).bind fun next =>
        steps meaning texts blocks second next.1 next.2 := by
  induction first generalizing place state with
  | zero =>
    rw [Nat.zero_add]
    rfl
  | succ first ih =>
    rw [Nat.add_right_comm, steps, steps, Option.bind_assoc]
    congr 1
    funext next
    exact ih next.1 next.2

variable {start goal place stop : Position} {state final : State R} {label : String}
  {condition : Value}

theorem Arrives.trans {middle : Position} {between : State R}
    (first : Arrives meaning texts blocks start state middle between)
    (second : Arrives meaning texts blocks middle between goal final) :
    Arrives meaning texts blocks start state goal final := by
  obtain ⟨count, former⟩ := first
  obtain ⟨more, latter⟩ := second
  refine ⟨count + more, ?_⟩
  rw [steps_add, former]
  exact latter

theorem Arrives.step {next : Position} {between : State R}
    (first : Block.step meaning texts blocks start state = some (next, between))
    (second : Arrives meaning texts blocks next between goal final) :
    Arrives meaning texts blocks start state goal final := by
  obtain ⟨count, latter⟩ := second
  refine ⟨count + 1, ?_⟩
  rw [steps, first]
  exact latter

/-- At the end of a block the machine goes where the terminator leads. -/
theorem Ends.step {terminator : Terminator} (ends : Ends blocks place terminator)
    (state : State R) : Block.step meaning texts blocks place state =
      (terminator.target? meaning texts state).bind fun label =>
        (position? blocks label).map fun entered => (⟨entered, 0⟩, state) := by
  obtain ⟨block, found, length, terminated⟩ := ends
  have outside : block.instructions[place.offset]? = none := by
    rw [← length]
    exact List.getElem?_eq_none (Nat.le_refl _)
  simp only [Block.step, found, outside, terminated, Option.bind_eq_bind, Option.bind_some,
    Option.pure_def, Option.map_eq_bind]
  rfl

theorem Ends.step_jump (ends : Ends blocks place (.jump label))
    (found : position? blocks label = some entered) (state : State R) :
    Block.step meaning texts blocks place state = some (⟨entered, 0⟩, state) := by
  rw [ends.step]
  simp [Terminator.target?, found]

theorem Ends.step_branch {first second : String}
    (ends : Ends blocks place (.branch condition first second))
    (foundFirst : position? blocks first = some firstBlock)
    (foundSecond : position? blocks second = some secondBlock) (state : State R) :
    Block.step meaning texts blocks place state =
      (condition.truth? meaning texts state).map fun holds =>
        (⟨if holds then firstBlock else secondBlock, 0⟩, state) := by
  rw [ends.step, Terminator.target?]
  cases condition.truth? meaning texts state with
  | none => rfl
  | some holds =>
    cases holds with
    | true => simp [foundFirst]
    | false => simp [foundSecond]

theorem Ends.arrives_jump (ends : Ends blocks place (.jump label))
    (found : position? blocks label = some entered)
    (later : Arrives meaning texts blocks ⟨entered, 0⟩ state goal final) :
    Arrives meaning texts blocks place state goal final :=
  .step (ends.step_jump found state) later

theorem Ends.arrives_branch {first second : String} {holds : Bool}
    (ends : Ends blocks place (.branch condition first second))
    (foundFirst : position? blocks first = some firstBlock)
    (foundSecond : position? blocks second = some secondBlock)
    (isTrue : condition.truth? meaning texts state = some holds)
    (later : Arrives meaning texts blocks ⟨if holds then firstBlock else secondBlock, 0⟩ state goal
      final) : Arrives meaning texts blocks place state goal final := by
  refine .step ?_ later
  rw [ends.step_branch foundFirst foundSecond, isTrue]
  rfl

theorem step_instruction {index offset : Nat} {block : Block} {instruction : Instruction}
    (found : blocks[index]? = some block)
    (here : block.instructions[offset]? = some instruction) (state : State R) :
    Block.step meaning texts blocks ⟨index, offset⟩ state =
      (instruction.execute meaning texts state).map fun after => (⟨index, offset + 1⟩, after) := by
  simp only [Block.step, found, here, Option.bind_eq_bind, Option.bind_some, Option.pure_def,
    Option.map_eq_bind]
  rfl

/-- The machine executes straight code instruction by instruction. -/
theorem Lays.straight_steps {code : List Instruction}
    (lays : Lays blocks exit (.straight code) start stop) (state : State R) :
    steps meaning texts blocks code.length start state =
      (executeAll meaning texts code state).map fun final => (stop, final) := by
  cases lays with
  | @straight _ index offset block found starts =>
    induction code generalizing offset state with
    | nil => rfl
    | cons instruction rest ih =>
      obtain ⟨here, later⟩ := prefix_drop_cons starts
      rw [List.length_cons, steps, step_instruction found here, executeAll,
        Option.map_eq_bind, Option.bind_assoc, Option.map_bind]
      congr 1
      funext after
      simp only [Function.comp_apply, Option.bind_some]
      rw [ih after later]
      congr 2
      funext final
      rw [Nat.add_comm rest.length, Nat.add_assoc]

theorem Lays.straight_arrives {code : List Instruction}
    (lays : Lays blocks exit (.straight code) start stop)
    (executed : executeAll meaning texts code state = some final) :
    Arrives meaning texts blocks start state stop final := by
  refine ⟨code.length, ?_⟩
  rw [lays.straight_steps, executed]
  rfl

theorem Lays.loop_arrives {test : List Instruction} {body : Code} {testStop bodyStop : Position}
    {testLabel bodyLabel restLabel : String} {testBlock bodyBlock restBlock : Nat}
    (foundTest : position? blocks testLabel = some testBlock)
    (foundBody : position? blocks bodyLabel = some bodyBlock)
    (foundRest : position? blocks restLabel = some restBlock)
    (laysTest : Lays blocks exit (.straight test) ⟨testBlock, 0⟩ testStop)
    (tested : Ends blocks testStop (.branch condition bodyLabel restLabel))
    (closes : Ends blocks bodyStop (.jump testLabel))
    (runs : ∀ state final, body.Executes meaning texts state final →
      Arrives meaning texts blocks ⟨bodyBlock, 0⟩ state bodyStop final)
    (rounds : Rounds (testState meaning texts test condition) (body.Executes meaning texts)
      state final) (ended : Ends blocks start (.jump testLabel)) :
    Arrives meaning texts blocks start state ⟨restBlock, 0⟩ final := by
  induction rounds generalizing start with
  | finish made =>
    obtain ⟨between, executed, made⟩ := Option.bind_eq_some_iff.mp made
    obtain ⟨holds, isTrue, made⟩ := Option.bind_eq_some_iff.mp made
    cases made
    apply ended.arrives_jump foundTest
    apply (laysTest.straight_arrives executed).trans
    exact tested.arrives_branch foundBody foundRest isTrue (.refl _ _)
  | again made ran _ ih =>
    obtain ⟨between, executed, made⟩ := Option.bind_eq_some_iff.mp made
    obtain ⟨holds, isTrue, made⟩ := Option.bind_eq_some_iff.mp made
    cases made
    apply ended.arrives_jump foundTest
    apply (laysTest.straight_arrives executed).trans
    apply tested.arrives_branch foundBody foundRest isTrue
    exact (runs _ _ ran).trans (ih closes)

/-- The machine follows structured code from its start to its end. -/
theorem Lays.arrives {code : Code} (lays : Lays blocks exit code start stop)
    (stays : code.stays = true) (executes : code.Executes meaning texts state final) :
    Arrives meaning texts blocks start state stop final := by
  induction lays generalizing state final with
  | straight found starts =>
    have laid : Lays blocks exit (.straight _) _ _ := .straight found starts
    exact laid.straight_arrives executes
  | seq _ _ first second =>
    rw [Code.stays, Bool.and_eq_true] at stays
    obtain ⟨middle, former, latter⟩ := executes
    exact (first stays.1 former).trans (second stays.2 latter)
  | leave ended => cases stays
  | branch ended foundThen foundElse foundRest _ _ closesThen closesElse consequent alternative =>
    rw [Code.stays, Bool.and_eq_true] at stays
    obtain ⟨holds, isTrue, executes⟩ := executes
    apply ended.arrives_branch foundThen foundElse isTrue
    cases holds with
    | true =>
      have closed := closesThen (Code.leaves_of_stays stays.1)
      exact (consequent stays.1 executes).trans (closed.arrives_jump foundRest (.refl _ _))
    | false =>
      have closed := closesElse (Code.leaves_of_stays stays.2)
      exact (alternative stays.2 executes).trans (closed.arrives_jump foundRest (.refl _ _))
  | skip ended foundBody foundRest _ closes body =>
    obtain ⟨holds, isTrue, executes⟩ := executes
    apply ended.arrives_branch foundRest foundBody isTrue
    cases holds with
    | true =>
      cases executes
      exact .refl _ _
    | false =>
      have closed := closes (Code.leaves_of_stays stays)
      exact (body stays executes).trans (closed.arrives_jump foundRest (.refl _ _))
  | loop ended foundTest foundBody foundRest test tested _ closes _ body =>
    exact Lays.loop_arrives foundTest foundBody foundRest test tested
      (closes (Code.leaves_of_stays stays)) (fun _ _ => body stays) executes ended

/-! ## Runs of the machine -/

section Passing

variable {goal : Position} {final : State R} {value : Option Value}

variable {place start : Position} {count : Nat} {state : State R}

/-- Where the function returns, the machine stops. -/
theorem Ends.step_ret (ends : Ends blocks place (.ret value)) (state : State R) :
    Block.step meaning texts blocks place state = none := by
  rw [ends.step]
  rfl

theorem Ends.ne_of_ret {terminator : Terminator} (returns : Ends blocks goal (.ret value))
    (ends : Ends blocks place terminator) (other : terminator ≠ .ret value) : place ≠ goal := by
  rintro rfl
  obtain ⟨block, found, _, terminated⟩ := returns
  obtain ⟨same, foundSame, _, terminatedSame⟩ := ends
  rw [found, Option.some.injEq] at foundSame
  subst foundSame
  rw [terminated, Option.some.injEq] at terminatedSame
  exact other terminatedSame.symm

/-- A machine that has still to get somewhere makes a step. -/
theorem steps_cases
    (steps : Block.steps meaning texts blocks count place state = some (goal, final))
    (other : place ≠ goal) : ∃ fewer next between, fewer < count ∧
      Block.step meaning texts blocks place state = some (next, between) ∧
      Block.steps meaning texts blocks fewer next between = some (goal, final) := by
  cases count with
  | zero =>
    cases steps
    exact absurd rfl other
  | succ count =>
    obtain ⟨⟨next, between⟩, first, later⟩ := Option.bind_eq_some_iff.mp steps
    exact ⟨count, next, between, Nat.lt_succ_self _, first, later⟩

section

variable (returns : Ends blocks goal (.ret value))

include returns

theorem jump_steps_cases {label : String}
    (ends : Ends blocks place (.jump label)) (found : position? blocks label = some entered)
    (steps : Block.steps meaning texts blocks count place state = some (goal, final)) :
    ∃ fewer, fewer < count ∧
      Block.steps meaning texts blocks fewer ⟨entered, 0⟩ state = some (goal, final) := by
  obtain ⟨fewer, next, between, less, first, later⟩ :=
    steps_cases steps (returns.ne_of_ret ends (by simp))
  rw [ends.step_jump found] at first
  cases first
  exact ⟨fewer, less, later⟩

theorem branch_steps_cases {condition : Value} {first second : String}
    (ends : Ends blocks place (.branch condition first second))
    (foundFirst : position? blocks first = some firstBlock)
    (foundSecond : position? blocks second = some secondBlock)
    (steps : Block.steps meaning texts blocks count place state = some (goal, final)) :
    ∃ fewer holds, fewer < count ∧ condition.truth? meaning texts state = some holds ∧
      Block.steps meaning texts blocks fewer ⟨if holds then firstBlock else secondBlock, 0⟩ state =
        some (goal, final) := by
  obtain ⟨fewer, next, between, less, made, later⟩ :=
    steps_cases steps (returns.ne_of_ret ends (by simp))
  rw [ends.step_branch foundFirst foundSecond, Option.map_eq_some_iff] at made
  obtain ⟨holds, isTrue, same⟩ := made
  cases same
  exact ⟨fewer, holds, less, isTrue, later⟩

/-- A machine that gets from the start of straight code to where the function returns executes the
code. -/
theorem Lays.straight_passes {code : List Instruction} {stop : Position}
    (lays : Lays blocks exit (.straight code) start stop)
    (steps : Block.steps meaning texts blocks count start state = some (goal, final)) :
    ∃ fewer between, fewer ≤ count ∧ executeAll meaning texts code state = some between ∧
      Block.steps meaning texts blocks fewer stop between = some (goal, final) := by
  cases lays with
  | @straight _ index offset block found starts =>
    induction code generalizing offset state count with
    | nil => exact ⟨count, state, Nat.le_refl _, rfl, steps⟩
    | cons instruction rest ih =>
      obtain ⟨here, later⟩ := prefix_drop_cons starts
      have inside := (List.getElem?_eq_some_iff.mp here).1
      have other : (⟨index, offset⟩ : Position) ≠ goal := by
        rintro rfl
        obtain ⟨same, foundSame, length, _⟩ := returns
        rw [found, Option.some.injEq] at foundSame
        subst foundSame
        exact absurd length (Nat.ne_of_gt inside)
      obtain ⟨fewer, next, between, less, made, more⟩ := steps_cases steps other
      rw [step_instruction found here, Option.map_eq_some_iff] at made
      obtain ⟨after, executed, same⟩ := made
      cases same
      obtain ⟨fewest, last, least, executedLater, ending⟩ := ih later more
      refine ⟨fewest, last, by omega, ?_, ?_⟩
      · exact Option.bind_eq_some_iff.mpr ⟨_, executed, executedLater⟩
      · rw [List.length_cons, Nat.add_comm rest.length, ← Nat.add_assoc]
        exact ending

theorem Lays.loop_passes {test : List Instruction} {condition : Value} {body : Code}
    {testStop bodyStop : Position} {testLabel bodyLabel restLabel : String}
    {testBlock bodyBlock restBlock : Nat} (foundTest : position? blocks testLabel = some testBlock)
    (foundBody : position? blocks bodyLabel = some bodyBlock)
    (foundRest : position? blocks restLabel = some restBlock)
    (laysTest : Lays blocks exit (.straight test) ⟨testBlock, 0⟩ testStop)
    (tested : Ends blocks testStop (.branch condition bodyLabel restLabel))
    (closes : Ends blocks bodyStop (.jump testLabel)) (runs : ∀ {count : Nat} {state : State R},
      Block.steps meaning texts blocks count ⟨bodyBlock, 0⟩ state = some (goal, final) →
      ∃ fewer between, fewer ≤ count ∧ body.Executes meaning texts state between ∧
        Block.steps meaning texts blocks fewer bodyStop between = some (goal, final))
    (ended : Ends blocks start (.jump testLabel))
    (steps : Block.steps meaning texts blocks count start state = some (goal, final)) :
    ∃ fewer between, fewer ≤ count ∧
      Rounds (testState meaning texts test condition) (body.Executes meaning texts) state between ∧
      Block.steps meaning texts blocks fewer ⟨restBlock, 0⟩ between = some (goal, final) := by
  induction count using Nat.strongRecOn generalizing start state with
  | ind count ih =>
    obtain ⟨atTest, less, steps⟩ := jump_steps_cases returns ended foundTest steps
    obtain ⟨atEnd, after, few, executed, steps⟩ := laysTest.straight_passes returns steps
    obtain ⟨beyond, holds, lesser, isTrue, steps⟩ :=
      branch_steps_cases returns tested foundBody foundRest steps
    have made : testState meaning texts test condition state = some (holds, after) := by
      simp [testState, executed, isTrue]
    cases holds with
    | false => exact ⟨beyond, after, by omega, .finish made, steps⟩
    | true =>
      obtain ⟨atBack, middle, fewer, ran, steps⟩ := runs steps
      obtain ⟨fewest, last, least, rounds, steps⟩ :=
        ih atBack (by omega) closes steps
      exact ⟨fewest, last, by omega, .again made ran rounds, steps⟩

/-- A machine that gets from the start of structured code to where the function returns executes
the code. -/
theorem Lays.passes {code : Code} {stop : Position}
    (lays : Lays blocks exit code start stop) (stays : code.stays = true)
    (steps : Block.steps meaning texts blocks count start state = some (goal, final)) :
    ∃ fewer between, fewer ≤ count ∧ code.Executes meaning texts state between ∧
      Block.steps meaning texts blocks fewer stop between = some (goal, final) := by
  induction lays generalizing count state with
  | straight found starts =>
    have laid : Lays blocks exit (.straight _) _ _ := .straight found starts
    exact laid.straight_passes returns steps
  | seq _ _ first second =>
    rw [Code.stays, Bool.and_eq_true] at stays
    obtain ⟨fewer, middle, few, former, steps⟩ := first stays.1 steps
    obtain ⟨fewest, last, least, latter, steps⟩ := second stays.2 steps
    exact ⟨fewest, last, by omega, ⟨middle, former, latter⟩, steps⟩
  | leave ended => cases stays
  | branch ended foundThen foundElse foundRest _ _ closesThen closesElse consequent alternative =>
    rw [Code.stays, Bool.and_eq_true] at stays
    obtain ⟨entered, holds, less, isTrue, steps⟩ :=
      branch_steps_cases returns ended foundThen foundElse steps
    cases holds with
    | true =>
      obtain ⟨fewer, last, few, executes, steps⟩ := consequent stays.1 steps
      obtain ⟨fewest, least, steps⟩ := jump_steps_cases returns
        (closesThen (Code.leaves_of_stays stays.1)) foundRest steps
      exact ⟨fewest, last, by omega, ⟨true, isTrue, executes⟩, steps⟩
    | false =>
      obtain ⟨fewer, last, few, executes, steps⟩ := alternative stays.2 steps
      obtain ⟨fewest, least, steps⟩ := jump_steps_cases returns
        (closesElse (Code.leaves_of_stays stays.2)) foundRest steps
      exact ⟨fewest, last, by omega, ⟨false, isTrue, executes⟩, steps⟩
  | skip ended foundBody foundRest _ closes body =>
    obtain ⟨entered, holds, less, isTrue, steps⟩ :=
      branch_steps_cases returns ended foundRest foundBody steps
    cases holds with
    | true => exact ⟨entered, _, by omega, ⟨true, isTrue, rfl⟩, steps⟩
    | false =>
      obtain ⟨fewer, last, few, executes, steps⟩ := body stays steps
      obtain ⟨fewest, least, steps⟩ := jump_steps_cases returns
        (closes (Code.leaves_of_stays stays)) foundRest steps
      exact ⟨fewest, last, by omega, ⟨false, isTrue, executes⟩, steps⟩
  | loop ended foundTest foundBody foundRest test tested _ closes _ body =>
    exact Lays.loop_passes returns foundTest foundBody foundRest test tested
      (closes (Code.leaves_of_stays stays)) (body stays) ended steps

end

end Passing

/-- Where structured code is followed by the block in which the function returns, the machine gets
there exactly as the code executes. -/
theorem returns_iff {code : Code} {last : Nat} {value : Option Value}
    (lays : Lays blocks exit code start stop) (stays : code.stays = true)
    (ended : Ends blocks stop (.jump label)) (found : position? blocks label = some last)
    (returns : Ends blocks ⟨last, 0⟩ (.ret value)) :
    Arrives meaning texts blocks start state ⟨last, 0⟩ final ↔
      code.Executes meaning texts state final := by
  constructor
  · intro ⟨count, steps⟩
    obtain ⟨fewer, between, _, executes, steps⟩ := lays.passes returns stays steps
    obtain ⟨fewest, _, steps⟩ := jump_steps_cases returns ended found steps
    cases fewest with
    | zero =>
      cases steps
      exact executes
    | succ fewest =>
      rw [Block.steps, returns.step_ret] at steps
      cases steps
  · intro executes
    exact (lays.arrives stays executes).trans (ended.arrives_jump found (.refl _ _))

end Block

end Executions

end Kronk.IR
