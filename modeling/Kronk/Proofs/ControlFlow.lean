import Kronk.IR.Module

/-!
# Control flow

Control starts in the first block of a function, executes instructions and follows terminators.
Blocks are dominated if a result is used only after the instruction that defines it was executed, on
every way control can take.  Emitted code is structured: `Code` is its syntax, `Lays` says where it
stands in the blocks of a function, and the ways of control through the blocks are the runs of the
structured code.
-/

namespace Kronk.IR

variable {label : String} {entered : Nat}

def Value.resultName? : Value → Option LocalName
  | .result name _ => some name
  | _ => none

def resultNames (values : List Value) : List LocalName := values.filterMap Value.resultName?

def Instruction.uses (instruction : Instruction) : List LocalName :=
  resultNames instruction.operation.operands

def Terminator.uses (terminator : Terminator) : List LocalName := resultNames terminator.operands

def results (code : List Instruction) : List LocalName := code.filterMap Instruction.result

@[simp] theorem results_nil : results [] = [] := rfl

@[simp] theorem results_append (first second : List Instruction) :
    results (first ++ second) = results first ++ results second :=
  List.filterMap_append

/-- A place between two instructions, or between the last one and the terminator. -/
structure Position where
  block : Nat
  offset : Nat
deriving DecidableEq, Repr

namespace Block

variable {start target : Position}

def position? (blocks : List Block) (label : String) : Option Nat :=
  blocks.findIdx? (fun block => block.label == label)

/-- Control can get from one place to another in a number of steps, and executes code on the way. -/
inductive Steps (blocks : List Block) :
    Nat → Position → List Instruction → Position → Prop where
  | stay (position : Position) : Steps blocks 0 position [] position
  | execute {count index offset : Nat} {block : Block} {instruction : Instruction}
      {code : List Instruction} {target : Position} :
      blocks[index]? = some block →
      block.instructions[offset]? = some instruction →
      Steps blocks count ⟨index, offset + 1⟩ code target →
      Steps blocks (count + 1) ⟨index, offset⟩ (instruction :: code) target
  | jump {count index offset entered : Nat} {block : Block} {terminator : Terminator}
      {label : String} {code : List Instruction} {target : Position} :
      blocks[index]? = some block →
      block.instructions.length = offset →
      block.terminator = some terminator →
      label ∈ terminator.targets →
      position? blocks label = some entered →
      Steps blocks count ⟨entered, 0⟩ code target →
      Steps blocks (count + 1) ⟨index, offset⟩ code target

/-- Control can get from one place to another, and executes code on the way. -/
def Gets (blocks : List Block) (start : Position) (code : List Instruction) (target : Position) :
    Prop :=
  ∃ count, Steps blocks count start code target

/-- What stands at a place uses a result. -/
inductive UsesAt (blocks : List Block) : Position → LocalName → Prop where
  | instruction {index offset : Nat} {block : Block} {instruction : Instruction}
      {name : LocalName} :
      blocks[index]? = some block →
      block.instructions[offset]? = some instruction →
      name ∈ instruction.uses →
      UsesAt blocks ⟨index, offset⟩ name
  | terminator {index offset : Nat} {block : Block} {terminator : Terminator}
      {name : LocalName} :
      blocks[index]? = some block →
      block.instructions.length = offset →
      block.terminator = some terminator →
      name ∈ terminator.uses →
      UsesAt blocks ⟨index, offset⟩ name

/-- However control gets to a use of a result, the instruction that defines it was executed. -/
def Dominated (blocks : List Block) : Prop :=
  ∀ done place name, Gets blocks ⟨0, 0⟩ done place → UsesAt blocks place name →
    name ∈ results done

theorem Steps.trans {blocks : List Block} {first second : Nat} {middle : Position}
    {done later : List Instruction} (former : Steps blocks first start done middle)
    (latter : Steps blocks second middle later target) :
    Steps blocks (first + second) start (done ++ later) target := by
  induction former with
  | stay position =>
    rw [Nat.zero_add]
    exact latter
  | execute found here _ ih =>
    rw [Nat.add_right_comm]
    exact .execute found here (ih latter)
  | jump found ends terminated member entered _ ih =>
    rw [Nat.add_right_comm]
    exact .jump found ends terminated member entered (ih latter)

theorem Gets.trans {blocks : List Block} {middle : Position} {done later : List Instruction}
    (former : Gets blocks start done middle) (latter : Gets blocks middle later target) :
    Gets blocks start (done ++ later) target := by
  obtain ⟨_, former⟩ := former
  obtain ⟨_, latter⟩ := latter
  exact ⟨_, former.trans latter⟩

def Ends (blocks : List Block) (place : Position) (terminator : Terminator) : Prop :=
  ∃ block, blocks[place.block]? = some block ∧ block.instructions.length = place.offset ∧
    block.terminator = some terminator

section Ends

variable {blocks : List Block} {place : Position} {terminator : Terminator}

section

variable (ends : Ends blocks place terminator)

include ends

theorem Ends.uses {name : LocalName}
    (uses : UsesAt blocks place name) : name ∈ terminator.uses := by
  obtain ⟨block, found, length, terminated⟩ := ends
  cases uses with
  | instruction here instruction member =>
    rw [found, Option.some.injEq] at here
    subst here
    rw [List.getElem?_eq_none (by exact Nat.le_of_eq length)] at instruction
    cases instruction
  | terminator here _ other member =>
    rw [found, Option.some.injEq] at here
    subst here
    rw [terminated, Option.some.injEq] at other
    rwa [other]

theorem Ends.usesAt {name : LocalName}
    (member : name ∈ terminator.uses) : UsesAt blocks place name := by
  obtain ⟨block, found, length, terminated⟩ := ends
  exact .terminator found length terminated member

variable {done : List Instruction}

/-- From the end of a block control stays or goes to a target of the terminator. -/
theorem Ends.steps {count : Nat} (steps : Steps blocks count place done target) :
    (target = place ∧ done = []) ∨
      ∃ fewer label entered, fewer < count ∧ label ∈ terminator.targets ∧
        position? blocks label = some entered ∧ Steps blocks fewer ⟨entered, 0⟩ done target := by
  obtain ⟨block, found, length, terminated⟩ := ends
  cases steps with
  | stay => exact .inl ⟨rfl, rfl⟩
  | execute here instruction _ =>
    rw [found, Option.some.injEq] at here
    subst here
    rw [List.getElem?_eq_none (by exact Nat.le_of_eq length)] at instruction
    cases instruction
  | jump here _ other member entered later =>
    rw [found, Option.some.injEq] at here
    subst here
    rw [terminated, Option.some.injEq] at other
    subst other
    exact .inr ⟨_, _, _, Nat.lt_succ_self _, member, entered, later⟩

theorem Ends.gets (member : label ∈ terminator.targets)
    (reached : position? blocks label = some entered)
    (later : Gets blocks ⟨entered, 0⟩ done target) : Gets blocks place done target := by
  obtain ⟨block, found, length, terminated⟩ := ends
  obtain ⟨count, steps⟩ := later
  exact ⟨_, .jump found length terminated member reached steps⟩

theorem Gets.jump (gets : Gets blocks start done place)
    (member : label ∈ terminator.targets) (reached : position? blocks label = some entered) :
    Gets blocks start done ⟨entered, 0⟩ := by
  have whole := gets.trans (ends.gets member reached ⟨_, .stay _⟩)
  rwa [List.append_nil] at whole

end

end Ends

end Block

/-! ## Structured code -/

/-- Structured code.  `branch` runs one of its bodies, `skip` runs its body unless the condition
holds, `loop` runs its test and its body in turn, and `leave` goes to the end of the function. -/
inductive Code where
  | straight (instructions : List Instruction)
  | seq (first second : Code)
  | leave
  | branch (condition : Value) (consequent alternative : Code)
  | skip (condition : Value) (body : Code)
  | loop (test : List Instruction) (condition : Value) (body : Code)

namespace Code

/-- Whether the code ends by leaving the function. -/
def leaves : Code → Bool
  | leave => true
  | seq _ second => second.leaves
  | _ => false

/-- The code can be executed from its start to its end. -/
inductive Runs : Code → List Instruction → Prop where
  | straight (code : List Instruction) : Runs (.straight code) code
  | seq {first second : Code} {run later : List Instruction} :
      Runs first run → Runs second later → Runs (.seq first second) (run ++ later)
  | consequent {condition : Value} {consequent alternative : Code} {run : List Instruction} :
      Runs consequent run → Runs (.branch condition consequent alternative) run
  | alternative {condition : Value} {consequent alternative : Code} {run : List Instruction} :
      Runs alternative run → Runs (.branch condition consequent alternative) run
  | skipped {condition : Value} {body : Code} : Runs (.skip condition body) []
  | skip {condition : Value} {body : Code} {run : List Instruction} :
      Runs body run → Runs (.skip condition body) run
  | finish {test : List Instruction} {condition : Value} {body : Code} :
      Runs (.loop test condition body) test
  | again {test : List Instruction} {condition : Value} {body : Code}
      {run later : List Instruction} :
      Runs body run → Runs (.loop test condition body) later →
      Runs (.loop test condition body) (test ++ run ++ later)

/-- The code can be executed from its start to where it leaves the function. -/
inductive Exits : Code → List Instruction → Prop where
  | first {first second : Code} {run : List Instruction} :
      Exits first run → Exits (.seq first second) run
  | second {first second : Code} {run later : List Instruction} :
      Runs first run → Exits second later → Exits (.seq first second) (run ++ later)
  | leave : Exits .leave []
  | consequent {condition : Value} {consequent alternative : Code} {run : List Instruction} :
      Exits consequent run → Exits (.branch condition consequent alternative) run
  | alternative {condition : Value} {consequent alternative : Code} {run : List Instruction} :
      Exits alternative run → Exits (.branch condition consequent alternative) run
  | skip {condition : Value} {body : Code} {run : List Instruction} :
      Exits body run → Exits (.skip condition body) run
  | body {test : List Instruction} {condition : Value} {body : Code} {run : List Instruction} :
      Exits body run → Exits (.loop test condition body) (test ++ run)
  | again {test : List Instruction} {condition : Value} {body : Code}
      {run later : List Instruction} :
      Runs body run → Exits (.loop test condition body) later →
      Exits (.loop test condition body) (test ++ run ++ later)

/-- The code can be executed from its start to a use of a result. -/
inductive Reaches : Code → List Instruction → LocalName → Prop where
  | straight {earlier later : List Instruction} {instruction : Instruction} {name : LocalName} :
      name ∈ instruction.uses →
      Reaches (.straight (earlier ++ instruction :: later)) earlier name
  | first {first second : Code} {run : List Instruction} {name : LocalName} :
      Reaches first run name → Reaches (.seq first second) run name
  | second {first second : Code} {run later : List Instruction} {name : LocalName} :
      Runs first run → Reaches second later name → Reaches (.seq first second) (run ++ later) name
  | condition {condition : Value} {consequent alternative : Code} {name : LocalName} :
      condition.resultName? = some name →
      Reaches (.branch condition consequent alternative) [] name
  | consequent {condition : Value} {consequent alternative : Code} {run : List Instruction}
      {name : LocalName} :
      Reaches consequent run name → Reaches (.branch condition consequent alternative) run name
  | alternative {condition : Value} {consequent alternative : Code} {run : List Instruction}
      {name : LocalName} :
      Reaches alternative run name → Reaches (.branch condition consequent alternative) run name
  | skipCondition {condition : Value} {body : Code} {name : LocalName} :
      condition.resultName? = some name → Reaches (.skip condition body) [] name
  | skip {condition : Value} {body : Code} {run : List Instruction} {name : LocalName} :
      Reaches body run name → Reaches (.skip condition body) run name
  | test {test : List Instruction} {condition : Value} {body : Code} {run : List Instruction}
      {name : LocalName} :
      Reaches (.straight test) run name → Reaches (.loop test condition body) run name
  | testCondition {test : List Instruction} {condition : Value} {body : Code}
      {name : LocalName} :
      condition.resultName? = some name → Reaches (.loop test condition body) test name
  | body {test : List Instruction} {condition : Value} {body : Code} {run : List Instruction}
      {name : LocalName} :
      Reaches body run name → Reaches (.loop test condition body) (test ++ run) name
  | again {test : List Instruction} {condition : Value} {body : Code}
      {run later : List Instruction} {name : LocalName} :
      Runs body run → Reaches (.loop test condition body) later name →
      Reaches (.loop test condition body) (test ++ run ++ later) name

theorem Runs.not_leaves {code : Code} {run : List Instruction} (runs : Runs code run) :
    code.leaves = false := by
  induction runs with
  | seq _ _ _ second => exact second
  | _ => rfl

end Code

/-! ## Structured code in blocks -/

namespace Block

/-- After code that ends at a place control goes to a label, unless the code leaves. -/
def Continues (blocks : List Block) (code : Code) (place : Position) (label : String) : Prop :=
  code.leaves = false → Ends blocks place (.jump label)

/-- The blocks hold structured code from one place to another.  `exit` is the label of the block
that code leaves to. -/
inductive Lays (blocks : List Block) (exit : String) : Code → Position → Position → Prop where
  | straight {code : List Instruction} {index offset : Nat} {block : Block} :
      blocks[index]? = some block →
      code <+: block.instructions.drop offset →
      Lays blocks exit (.straight code) ⟨index, offset⟩ ⟨index, offset + code.length⟩
  | seq {first second : Code} {start middle stop : Position} :
      Lays blocks exit first start middle →
      Lays blocks exit second middle stop →
      Lays blocks exit (.seq first second) start stop
  | leave {place : Position} :
      Ends blocks place (.jump exit) →
      Lays blocks exit .leave place place
  | branch {condition : Value} {consequent alternative : Code} {start : Position}
      {thenLabel elseLabel restLabel : String} {thenBlock elseBlock restBlock : Nat}
      {thenStop elseStop : Position} :
      Ends blocks start (.branch condition thenLabel elseLabel) →
      position? blocks thenLabel = some thenBlock →
      position? blocks elseLabel = some elseBlock →
      position? blocks restLabel = some restBlock →
      Lays blocks exit consequent ⟨thenBlock, 0⟩ thenStop →
      Lays blocks exit alternative ⟨elseBlock, 0⟩ elseStop →
      Continues blocks consequent thenStop restLabel →
      Continues blocks alternative elseStop restLabel →
      Lays blocks exit (.branch condition consequent alternative) start ⟨restBlock, 0⟩
  | skip {condition : Value} {body : Code} {start : Position} {bodyLabel restLabel : String}
      {bodyBlock restBlock : Nat} {bodyStop : Position} :
      Ends blocks start (.branch condition restLabel bodyLabel) →
      position? blocks bodyLabel = some bodyBlock →
      position? blocks restLabel = some restBlock →
      Lays blocks exit body ⟨bodyBlock, 0⟩ bodyStop →
      Continues blocks body bodyStop restLabel →
      Lays blocks exit (.skip condition body) start ⟨restBlock, 0⟩
  | loop {test : List Instruction} {condition : Value} {body : Code} {start : Position}
      {testLabel bodyLabel restLabel : String} {testBlock bodyBlock restBlock : Nat}
      {testStop bodyStop : Position} :
      Ends blocks start (.jump testLabel) →
      position? blocks testLabel = some testBlock →
      position? blocks bodyLabel = some bodyBlock →
      position? blocks restLabel = some restBlock →
      Lays blocks exit (.straight test) ⟨testBlock, 0⟩ testStop →
      Ends blocks testStop (.branch condition bodyLabel restLabel) →
      Lays blocks exit body ⟨bodyBlock, 0⟩ bodyStop →
      Continues blocks body bodyStop testLabel →
      Lays blocks exit (.loop test condition body) start ⟨restBlock, 0⟩

/-- Blocks that were added to: blocks with a terminator stay as they are, labels lead to the same
blocks. -/
structure Extends (blocks grown : List Block) : Prop where
  instructions : ∀ (index : Nat) (block : Block), blocks[index]? = some block →
    ∃ other : Block, grown[index]? = some other ∧ block.instructions <+: other.instructions ∧
      (block.terminator.isSome → other = block)
  labels : ∀ label index, position? blocks label = some index → position? grown label = some index

namespace Extends

variable {blocks grown : List Block}

theorem refl : Extends blocks blocks :=
  ⟨fun _ block found => ⟨block, found, List.prefix_refl _, fun _ => rfl⟩, fun _ _ found => found⟩

theorem trans {later : List Block} (former : Extends blocks grown) (latter : Extends grown later) :
    Extends blocks later := by
  refine ⟨fun index block found => ?_, fun label index found =>
    latter.labels label index (former.labels label index found)⟩
  obtain ⟨middle, foundMiddle, startsMiddle, keepsMiddle⟩ := former.instructions index block found
  obtain ⟨last, foundLast, startsLast, keepsLast⟩ := latter.instructions index middle foundMiddle
  refine ⟨last, foundLast, startsMiddle.trans startsLast, fun ended => ?_⟩
  have same := keepsMiddle ended
  rw [keepsLast (same ▸ ended), same]

theorem ends (extended : Extends blocks grown) {place : Position} {terminator : Terminator}
    (ends : Ends blocks place terminator) : Ends grown place terminator := by
  obtain ⟨block, found, length, terminated⟩ := ends
  obtain ⟨other, foundOther, _, keeps⟩ := extended.instructions place.block block found
  obtain rfl := keeps (by simp [terminated])
  exact ⟨other, foundOther, length, terminated⟩

theorem lays (extended : Extends blocks grown) {exit : String} {code : Code}
    {start stop : Position} (lays : Lays blocks exit code start stop) :
    Lays grown exit code start stop := by
  induction lays with
  | @straight code index offset block found starts =>
    obtain ⟨other, foundOther, grows, _⟩ := extended.instructions index block found
    obtain ⟨added, split⟩ := grows
    refine .straight foundOther (starts.trans ⟨added.drop (offset - block.instructions.length), ?_⟩)
    rw [← split, List.drop_append]
  | seq _ _ first second => exact .seq first second
  | leave ended => exact .leave (extended.ends ended)
  | branch ended foundThen foundElse foundRest _ _ closesThen closesElse consequent alternative =>
    exact .branch (extended.ends ended) (extended.labels _ _ foundThen)
      (extended.labels _ _ foundElse) (extended.labels _ _ foundRest) consequent alternative
      (fun continues => extended.ends (closesThen continues))
      (fun continues => extended.ends (closesElse continues))
  | skip ended foundBody foundRest _ closes body =>
    exact .skip (extended.ends ended) (extended.labels _ _ foundBody)
      (extended.labels _ _ foundRest) body (fun continues => extended.ends (closes continues))
  | loop ended foundTest foundBody foundRest _ tested _ closes test body =>
    exact .loop (extended.ends ended) (extended.labels _ _ foundTest)
      (extended.labels _ _ foundBody) (extended.labels _ _ foundRest) test
      (extended.ends tested) body (fun continues => extended.ends (closes continues))

end Extends

theorem prefix_drop_cons {instruction : Instruction} {rest instructions : List Instruction}
    {offset : Nat} (starts : instruction :: rest <+: instructions.drop offset) :
    instructions[offset]? = some instruction ∧ rest <+: instructions.drop (offset + 1) := by
  obtain ⟨later, split⟩ := starts
  have here : instructions[offset]? = some instruction := by
    rw [← Nat.add_zero offset, ← List.getElem?_drop, ← split]
    rfl
  refine ⟨here, later, ?_⟩
  rw [← List.tail_drop, ← split]
  rfl

namespace Lays

variable {blocks : List Block} {exit : String}

variable {start stop place target : Position} {code : Code} {run done : List Instruction}
  {name : LocalName} {count : Nat}

theorem straight_gets {code : List Instruction}
    (lays : Lays blocks exit (.straight code) start stop) : Gets blocks start code stop := by
  cases lays with
  | @straight _ index offset block found starts =>
    induction code generalizing offset with
    | nil => exact ⟨_, .stay _⟩
    | cons instruction rest ih =>
      obtain ⟨here, later⟩ := prefix_drop_cons starts
      obtain ⟨count, steps⟩ := ih later
      refine ⟨count + 1, .execute found here ?_⟩
      rw [List.length_cons, Nat.add_comm rest.length, ← Nat.add_assoc]
      exact steps

/-- Every run of laid code is a way of control. -/
theorem runs (runs : code.Runs run) (lays : Lays blocks exit code start stop) :
    Gets blocks start run stop := by
  induction runs generalizing start stop with
  | straight code => exact lays.straight_gets
  | seq _ _ first second =>
    cases lays with
    | seq former latter => exact (first former).trans (second latter)
  | consequent runs ih =>
    cases lays with
    | branch ended foundThen _ foundRest body _ closes _ =>
      exact ended.gets (by simp [Terminator.targets]) foundThen ((ih body).jump
        (closes runs.not_leaves) (by simp [Terminator.targets]) foundRest)
  | alternative runs ih =>
    cases lays with
    | branch ended _ foundElse foundRest _ body _ closes =>
      exact ended.gets (by simp [Terminator.targets]) foundElse ((ih body).jump
        (closes runs.not_leaves) (by simp [Terminator.targets]) foundRest)
  | skipped =>
    cases lays with
    | skip ended _ foundRest _ _ =>
      exact ended.gets (by simp [Terminator.targets]) foundRest ⟨_, .stay _⟩
  | skip runs ih =>
    cases lays with
    | skip ended foundBody foundRest body closes =>
      exact ended.gets (by simp [Terminator.targets]) foundBody ((ih body).jump
        (closes runs.not_leaves) (by simp [Terminator.targets]) foundRest)
  | finish =>
    cases lays with
    | loop ended foundTest _ foundRest test tested _ _ =>
      exact ended.gets (by simp [Terminator.targets]) foundTest
        (test.straight_gets.jump tested (by simp [Terminator.targets]) foundRest)
  | again runs _ ih later =>
    cases lays with
    | loop ended foundTest foundBody foundRest test tested body closes =>
      have back := later (.loop (closes runs.not_leaves) foundTest foundBody foundRest test
        tested body closes)
      have around := tested.gets (by simp [Terminator.targets]) foundBody
        ((ih body).trans back)
      rw [List.append_assoc]
      exact ended.gets (by simp [Terminator.targets]) foundTest
        (test.straight_gets.trans around)

theorem straight_reaches {earlier later : List Instruction} {instruction : Instruction}
    (member : name ∈ instruction.uses)
    (lays : Lays blocks exit (.straight (earlier ++ instruction :: later)) start stop) :
    ∃ place, Gets blocks start earlier place ∧ UsesAt blocks place name := by
  cases lays with
  | @straight _ index offset block found starts =>
    obtain ⟨added, split⟩ := starts
    have first : Lays blocks exit (.straight earlier) ⟨index, offset⟩ _ :=
      .straight found ⟨instruction :: later ++ added, by rw [← split, List.append_assoc]⟩
    refine ⟨_, first.straight_gets, .instruction found ?_ member⟩
    rw [← List.getElem?_drop, ← split, List.append_assoc,
      List.getElem?_append_right (Nat.le_refl _), Nat.sub_self]
    rfl

/-- Every use that a run of laid code reaches is reached by control. -/
theorem reaches (reaches : code.Reaches run name) (lays : Lays blocks exit code start stop) :
    ∃ place, Gets blocks start run place ∧ UsesAt blocks place name := by
  induction reaches generalizing start stop with
  | straight member => exact straight_reaches member lays
  | first _ ih =>
    cases lays with
    | seq former _ => exact ih former
  | second runs _ ih =>
    cases lays with
    | seq former latter =>
      obtain ⟨place, gets, uses⟩ := ih latter
      exact ⟨place, (former.runs runs).trans gets, uses⟩
  | condition result =>
    cases lays with
    | branch ended _ _ _ _ _ _ _ =>
      exact ⟨start, ⟨_, .stay _⟩, ended.usesAt (by
        simp [Terminator.uses, resultNames, Terminator.operands, result])⟩
  | consequent _ ih =>
    cases lays with
    | branch ended foundThen _ _ body _ _ _ =>
      obtain ⟨place, gets, uses⟩ := ih body
      exact ⟨place, ended.gets (by simp [Terminator.targets]) foundThen gets, uses⟩
  | alternative _ ih =>
    cases lays with
    | branch ended _ foundElse _ _ body _ _ =>
      obtain ⟨place, gets, uses⟩ := ih body
      exact ⟨place, ended.gets (by simp [Terminator.targets]) foundElse gets, uses⟩
  | skipCondition result =>
    cases lays with
    | skip ended _ _ _ _ =>
      exact ⟨start, ⟨_, .stay _⟩, ended.usesAt (by
        simp [Terminator.uses, resultNames, Terminator.operands, result])⟩
  | skip _ ih =>
    cases lays with
    | skip ended foundBody _ body _ =>
      obtain ⟨place, gets, uses⟩ := ih body
      exact ⟨place, ended.gets (by simp [Terminator.targets]) foundBody gets, uses⟩
  | test _ ih =>
    cases lays with
    | loop ended foundTest _ _ test _ _ _ =>
      obtain ⟨place, gets, uses⟩ := ih test
      exact ⟨place, ended.gets (by simp [Terminator.targets]) foundTest gets, uses⟩
  | testCondition result =>
    cases lays with
    | loop ended foundTest _ _ test tested _ _ =>
      refine ⟨_, ended.gets (by simp [Terminator.targets]) foundTest test.straight_gets, ?_⟩
      exact tested.usesAt (by
        simp [Terminator.uses, resultNames, Terminator.operands, result])
  | body _ ih =>
    cases lays with
    | loop ended foundTest foundBody _ test tested body _ =>
      obtain ⟨place, gets, uses⟩ := ih body
      have around := tested.gets (by simp [Terminator.targets]) foundBody gets
      exact ⟨place, ended.gets (by simp [Terminator.targets]) foundTest
        (test.straight_gets.trans around), uses⟩
  | again runs _ ih =>
    cases lays with
    | loop ended foundTest foundBody foundRest test tested body closes =>
      obtain ⟨place, gets, uses⟩ := ih (.loop (closes runs.not_leaves)
        foundTest foundBody foundRest test tested body closes)
      have around := tested.gets (by simp [Terminator.targets]) foundBody
        ((body.runs runs).trans gets)
      rw [List.append_assoc]
      exact ⟨place, ended.gets (by simp [Terminator.targets]) foundTest
        (test.straight_gets.trans around), uses⟩

/-- Where control can get from the start of laid code to a use: inside the code, beyond its end, or
beyond the exit of the function. -/
inductive Splits (blocks : List Block) (exit : String) (code : Code) (stop : Position) (count : Nat)
    (done : List Instruction) (target : Position) (name : LocalName) : Prop where
  | inside : code.Reaches done name → Splits blocks exit code stop count done target name
  | beyond {run rest : List Instruction} {fewer : Nat} :
      code.Runs run → done = run ++ rest → fewer ≤ count → Steps blocks fewer stop rest target →
      Splits blocks exit code stop count done target name
  | exit {run rest : List Instruction} {fewer last : Nat} :
      code.Exits run → done = run ++ rest → fewer ≤ count →
      position? blocks exit = some last → Steps blocks fewer ⟨last, 0⟩ rest target →
      Splits blocks exit code stop count done target name

theorem not_usesAt_jump (ends : Ends blocks place (.jump label)) : ¬ UsesAt blocks place name := by
  intro uses
  cases ends.uses uses

section

variable (uses : UsesAt blocks target name)

include uses

/-- From a jump control goes on to its label, if it gets to a use at all. -/
theorem jump_steps (ends : Ends blocks place (.jump label))
    (found : position? blocks label = some entered) (steps : Steps blocks count place done target) :
    ∃ fewer, fewer < count ∧ Steps blocks fewer ⟨entered, 0⟩ done target := by
  rcases ends.steps steps with ⟨rfl, rfl⟩ | ⟨fewer, other, block, less, member, reached, later⟩
  · exact absurd uses (not_usesAt_jump ends)
  · obtain rfl : other = label := by simpa [Terminator.targets] using member
    rw [found, Option.some.injEq] at reached
    subst reached
    exact ⟨fewer, less, later⟩

/-- From a branch control stays at its condition or goes to one of two blocks. -/
theorem branch_steps {condition : Value} {first second : String} {firstBlock secondBlock : Nat}
    (ends : Ends blocks place (.branch condition first second))
    (foundFirst : position? blocks first = some firstBlock)
    (foundSecond : position? blocks second = some secondBlock)
    (steps : Steps blocks count place done target) :
    (done = [] ∧ condition.resultName? = some name) ∨
      ∃ fewer, fewer < count ∧ (Steps blocks fewer ⟨firstBlock, 0⟩ done target ∨
        Steps blocks fewer ⟨secondBlock, 0⟩ done target) := by
  rcases ends.steps steps with ⟨rfl, rfl⟩ | ⟨fewer, label, block, less, member, reached, later⟩
  · have used := ends.uses uses
    simp only [Terminator.uses, resultNames, Terminator.operands, List.mem_filterMap,
      List.mem_singleton, exists_eq_left] at used
    exact .inl ⟨rfl, used⟩
  · have known : label = first ∨ label = second := by simpa [Terminator.targets] using member
    refine .inr ⟨fewer, less, ?_⟩
    rcases known with rfl | rfl
    · rw [foundFirst, Option.some.injEq] at reached
      subst reached
      exact .inl later
    · rw [foundSecond, Option.some.injEq] at reached
      subst reached
      exact .inr later

/-- What splits at a body splits at the code around it, where control goes on from the body. -/
theorem Splits.close {body whole : Code} {restLabel : String} {restBlock fewer : Nat}
    (splits : Splits blocks exit body stop fewer done target name) (less : fewer ≤ count)
    (closes : Continues blocks body stop restLabel)
    (foundRest : position? blocks restLabel = some restBlock)
    (reaches : body.Reaches done name → whole.Reaches done name)
    (runs : ∀ run, body.Runs run → whole.Runs run)
    (exits : ∀ run, body.Exits run → whole.Exits run) :
    Splits blocks exit whole ⟨restBlock, 0⟩ count done target name := by
  cases splits with
  | inside reached => exact .inside (reaches reached)
  | beyond ran split few steps =>
    obtain ⟨_, lesser, later⟩ := jump_steps uses (closes ran.not_leaves) foundRest steps
    exact .beyond (runs _ ran) split (by omega) later
  | exit left split few found steps =>
    exact .exit (exits _ left) split (by omega) found steps

theorem straight_splits {code : List Instruction}
    (lays : Lays blocks exit (.straight code) start stop)
    (steps : Steps blocks count start done target) : (Code.straight code).Reaches done name ∨
      ∃ fewer rest, done = code ++ rest ∧ fewer ≤ count ∧ Steps blocks fewer stop rest target := by
  cases lays with
  | @straight _ index offset block found starts =>
    induction code generalizing offset count done with
    | nil => exact .inr ⟨count, done, rfl, Nat.le_refl _, steps⟩
    | cons instruction rest ih =>
      obtain ⟨here, later⟩ := prefix_drop_cons starts
      have inside := (List.getElem?_eq_some_iff.mp here).1
      cases steps with
      | stay =>
        cases uses with
        | instruction foundBlock foundInstruction member =>
          rw [found, Option.some.injEq] at foundBlock
          subst foundBlock
          rw [here, Option.some.injEq] at foundInstruction
          subst foundInstruction
          have split : instruction :: rest = [] ++ instruction :: rest := rfl
          rw [split]
          exact .inl (.straight member)
        | terminator foundBlock length _ _ =>
          rw [found, Option.some.injEq] at foundBlock
          subst foundBlock
          omega
      | execute foundBlock foundInstruction next =>
        rw [found, Option.some.injEq] at foundBlock
        subst foundBlock
        rw [here, Option.some.injEq] at foundInstruction
        subst foundInstruction
        rcases ih later next with reached | ⟨fewer, rest, rfl, less, more⟩
        · cases reached with
          | straight member =>
            rw [← List.cons_append]
            exact .inl (.straight member)
        · refine .inr ⟨fewer, rest, rfl, Nat.le_succ_of_le less, ?_⟩
          rw [List.length_cons, Nat.add_comm (List.length _), ← Nat.add_assoc]
          exact more
      | jump foundBlock length _ _ _ _ =>
        rw [found, Option.some.injEq] at foundBlock
        subst foundBlock
        omega

/-- Control goes through a loop as its rounds do. -/
theorem loop_splits {test : List Instruction} {condition : Value} {body : Code}
    {testStop bodyStop : Position} {testLabel bodyLabel restLabel : String}
    {testBlock bodyBlock restBlock : Nat} (foundTest : position? blocks testLabel = some testBlock)
    (foundBody : position? blocks bodyLabel = some bodyBlock)
    (foundRest : position? blocks restLabel = some restBlock)
    (test_lays : Lays blocks exit (.straight test) ⟨testBlock, 0⟩ testStop)
    (tested : Ends blocks testStop (.branch condition bodyLabel restLabel))
    (closes : Continues blocks body bodyStop testLabel)
    (body_splits : ∀ {count : Nat} {done : List Instruction},
      Steps blocks count ⟨bodyBlock, 0⟩ done target →
        Splits blocks exit body bodyStop count done target name)
    (ended : Ends blocks start (.jump testLabel)) (steps : Steps blocks count start done target) :
    Splits blocks exit (.loop test condition body) ⟨restBlock, 0⟩ count done target name := by
  induction count using Nat.strongRecOn generalizing start done with
  | ind count ih =>
    obtain ⟨_, less, atTest⟩ := jump_steps uses ended foundTest steps
    rcases test_lays.straight_splits uses atTest with reached | ⟨_, later, rfl, few, atEnd⟩
    · exact .inside (.test reached)
    rcases branch_steps uses tested foundBody foundRest atEnd with
      ⟨rfl, result⟩ | ⟨_, lesser, atBody | atRest⟩
    · rw [List.append_nil]
      exact .inside (.testCondition result)
    · cases body_splits atBody with
      | inside reached => exact .inside (.body reached)
      | exit left split fewest found steps =>
        refine .exit (.body left) ?_ (by omega) found steps
        rw [split, List.append_assoc]
      | @beyond run rest fewer ran split fewest steps =>
        have smaller : fewer < count := by omega
        have whole : test ++ later = test ++ run ++ rest := by rw [split, List.append_assoc]
        rw [whole]
        cases ih _ smaller (closes ran.not_leaves) steps with
        | inside reached => exact .inside (.again ran reached)
        | beyond more split least steps =>
          refine .beyond (.again ran more) ?_ (by omega) steps
          rw [split, List.append_assoc (test ++ run)]
        | exit left split least found steps =>
          refine .exit (.again ran left) ?_ (by omega) found steps
          rw [split, List.append_assoc (test ++ run)]
    · exact .beyond .finish rfl (by omega) atRest

/-- Control that gets from the start of laid code to a use goes through the code. -/
theorem splits (lays : Lays blocks exit code start stop)
    (steps : Steps blocks count start done target) :
    Splits blocks exit code stop count done target name := by
  induction lays generalizing count done with
  | straight found starts =>
    have laid : Lays blocks exit _ _ _ := .straight found starts
    rcases laid.straight_splits uses steps with reached | ⟨_, _, split, less, later⟩
    · exact .inside reached
    · exact .beyond (.straight _) split less later
  | seq _ _ first second =>
    cases first steps with
    | inside reached => exact .inside (.first reached)
    | exit left split less found later => exact .exit (.first left) split less found later
    | @beyond run rest _ ran split less later =>
      subst split
      cases second later with
      | inside reached => exact .inside (.second ran reached)
      | beyond more split lesser last =>
        refine .beyond (.seq ran more) ?_ (by omega) last
        rw [split, List.append_assoc]
      | exit left split lesser found last =>
        refine .exit (.second ran left) ?_ (by omega) found last
        rw [split, List.append_assoc]
  | leave ended =>
    rcases ended.steps steps with ⟨rfl, rfl⟩ | ⟨fewer, label, last, less, member, reached, later⟩
    · exact absurd uses (not_usesAt_jump ended)
    · obtain rfl : label = exit := by simpa [Terminator.targets] using member
      exact .exit .leave rfl (Nat.le_of_lt less) reached later
  | branch ended foundThen foundElse foundRest _ _ closesThen closesElse consequent alternative =>
    rcases branch_steps uses ended foundThen foundElse steps with
      ⟨rfl, result⟩ | ⟨_, less, atThen | atElse⟩
    · exact .inside (.condition result)
    · exact (consequent atThen).close uses (Nat.le_of_lt less) closesThen foundRest
        .consequent (fun _ => .consequent) fun _ => .consequent
    · exact (alternative atElse).close uses (Nat.le_of_lt less) closesElse foundRest
        .alternative (fun _ => .alternative) fun _ => .alternative
  | skip ended foundBody foundRest _ closes body =>
    rcases branch_steps uses ended foundRest foundBody steps with
      ⟨rfl, result⟩ | ⟨_, less, atRest | atBody⟩
    · exact .inside (.skipCondition result)
    · exact .beyond .skipped rfl (Nat.le_of_lt less) atRest
    · exact (body atBody).close uses (Nat.le_of_lt less) closes foundRest
        .skip (fun _ => .skip) fun _ => .skip
  | loop ended foundTest foundBody foundRest test tested _ closes _ body =>
    exact loop_splits uses foundTest foundBody foundRest test tested closes body ended steps

end

end Lays

/-- The blocks of a function are dominated exactly if the structured code they hold is, where the
rest of the function uses nothing that is not defined before. -/
theorem dominated_iff {blocks : List Block} {exit : String} {code : Code} {stop : Position}
    (lays : Lays blocks exit code ⟨0, 0⟩ stop)
    (beyond : ∀ run rest target name, code.Runs run → Gets blocks stop rest target →
      UsesAt blocks target name → name ∈ results (run ++ rest))
    (atExit : ∀ run last rest target name, code.Exits run → position? blocks exit = some last →
      Gets blocks ⟨last, 0⟩ rest target → UsesAt blocks target name →
      name ∈ results (run ++ rest)) :
    Dominated blocks ↔ ∀ run name, code.Reaches run name → name ∈ results run := by
  constructor
  · intro dominated run name reaches
    obtain ⟨place, gets, uses⟩ := lays.reaches reaches
    exact dominated run place name gets uses
  · rintro defined done place name ⟨count, steps⟩ uses
    cases lays.splits uses steps with
    | inside reaches => exact defined done name reaches
    | beyond runs split _ steps =>
      rw [split]
      exact beyond _ _ place name runs ⟨_, steps⟩ uses
    | exit exits split _ found steps =>
      rw [split]
      exact atExit _ _ _ place name exits found ⟨_, steps⟩ uses

end Block

end Kronk.IR
