import Kronk.Catalogue
import Kronk.Name
import Kronk.Source.Stmt
import Kronk.Table

/-!
# The meaning of scalar programs

A scalar program works on booleans and reals only.  `Source.runAll` evaluates its syntax directly
and from left to right: both operands of `et` and `ou` are evaluated, so is an operand that stands
in two comparisons, and every call of a routine of the runtime is recorded with its arguments.
What reals are, how they are computed with and what routines answer is left to an `Interpretation`.

An evaluation is bounded by a number of rounds for each loop; `Terminates` says that some bound is
enough.
-/

namespace Kronk

/-- What a routine can be given, and what emitted code works on. -/
inductive Datum (R : Type) where
  | truth (value : Bool)
  | real (value : R)
  | word (value : BitVec 64)
  | half (value : BitVec 32)
  | text (content : String)
  | address (slot : Nat)

structure RoutineCall (R : Type) where
  routine : String
  arguments : List (Datum R)

/-- The operations on doubles and the routines of the runtime.  `answer` is what a routine answers
after earlier calls, or nothing if it does not return; what a routine without a result answers is
of no account. -/
structure Interpretation (R : Type) where
  literal : Binary64 → R
  plus : R → R → R
  minus : R → R → R
  times : R → R → R
  divide : R → R → R
  remainder : R → R → R
  negate : R → R
  less : R → R → Bool
  greater : R → R → Bool
  lessEqual : R → R → Bool
  greaterEqual : R → R → Bool
  equal : R → R → Bool
  notEqual : R → R → Bool
  toInteger : R → BitVec 64
  ofInteger : BitVec 64 → R
  shiftLeft : BitVec 64 → BitVec 64 → BitVec 64
  shiftRight : BitVec 64 → BitVec 64 → BitVec 64
  answer : (earlier : List (RoutineCall R)) → RoutineCall R → Option R

/-! ## Loops -/

/-- A loop goes from one state to another: its test is made, and its body is run as long as the test
holds. -/
inductive Rounds {σ : Type} (test : σ → Option (Bool × σ)) (body : σ → σ → Prop) :
    σ → σ → Prop where
  | finish {start final : σ} : test start = some (false, final) → Rounds test body start final
  | again {start tested middle final : σ} :
      test start = some (true, tested) → body tested middle → Rounds test body middle final →
      Rounds test body start final

namespace Source

/-! ## Scalars -/

inductive Scalar (R : Type) where
  | truth (value : Bool)
  | real (value : R)

namespace Scalar

variable {R : Type}

def datum : Scalar R → Datum R
  | truth value => .truth value
  | real value => .real value

def printed : Scalar R → Datum R
  | truth value => .half (if value then 1 else 0)
  | real value => .real value

/-- The letter that announces the scalar to the print routine. -/
def letter : Scalar R → String
  | truth _ => "b"
  | real _ => "r"

def type : Scalar R → Ty
  | truth _ => .bool
  | real _ => .real

end Scalar

def letters {R : Type} : List (Scalar R) → String
  | [] => ""
  | value :: rest => value.letter ++ letters rest

/-- The variables of a program and the calls it has made. -/
structure World (R : Type) where
  values : Table (Scalar R) := {}
  calls : List (RoutineCall R) := []

/-- Evaluation, which comes to nothing if a routine does not return or types do not fit. -/
abbrev Evaluation (R : Type) := StateT (World R) Option

namespace Evaluation

variable {R : Type}

def call (meaning : Interpretation R) (routine : String) (arguments : List (Datum R)) :
    Evaluation R R := fun world =>
  (meaning.answer world.calls ⟨routine, arguments⟩).map fun answer =>
    (answer, { world with calls := world.calls ++ [⟨routine, arguments⟩] })

def lookup (name : String) : Evaluation R (Scalar R) := fun world =>
  (world.values.get? name).map fun value => (value, world)

def declare (name : String) (value : Scalar R) : Evaluation R Unit := fun world =>
  some ((), { world with values := world.values.insert name value })

def assign (name : String) (value : Scalar R) : Evaluation R Unit := fun world =>
  if world.values.contains name then declare name value world else none

/-- What is left of an evaluation that must have a value. -/
def required (evaluation : Evaluation R (Option (Scalar R))) : Evaluation R (Scalar R) := do
  match ← evaluation with
  | some value => return value
  | none => failure

/-- What is left of an evaluation whose value must be a boolean. -/
def condition (evaluation : Evaluation R (Option (Scalar R))) : Evaluation R Bool := do
  match ← evaluation with
  | some (.truth value) => return value
  | _ => failure

/-- Runs a body as long as a test holds, for at most so many rounds. -/
def repeatWhile (test : Evaluation R Bool) (body : Evaluation R Unit) : Nat → Evaluation R Unit
  | 0 => failure
  | rounds + 1 => do
    if ← test then
      body
      repeatWhile test body rounds

end Evaluation

/-! ## Operators -/

section Operators

variable {R : Type} (meaning : Interpretation R) (file : String)

def truthOperation (left right : Bool) : Operator → Option Bool
  | .equal => some (left == right)
  | .notEqual => some (left != right)
  | .and => some (left && right)
  | .or => some (left || right)
  | _ => none

def integerOperation (operation : BitVec 64 → BitVec 64 → BitVec 64) (left right : R) : Scalar R :=
  .real (meaning.ofInteger (operation (meaning.toInteger left) (meaning.toInteger right)))

/-- An operator between two reals.  A divisor is checked by the runtime, which is told the place of
the division, and powers are computed by the runtime. -/
def realOperation (line : Nat) (left right : R) : Operator → Evaluation R (Scalar R)
  | .plus => return .real (meaning.plus left right)
  | .minus => return .real (meaning.minus left right)
  | .times => return .real (meaning.times left right)
  | .modulo => return .real (meaning.remainder left right)
  | .divide => do
    let _ ← Evaluation.call meaning "_kronk_zero_div_check"
      [.real right, .text file, .word (BitVec.ofNat 64 line)]
    return .real (meaning.divide left right)
  | .power => return .real (← Evaluation.call meaning "_kmath_puiss" [.real left, .real right])
  | .less => return .truth (meaning.less left right)
  | .greater => return .truth (meaning.greater left right)
  | .lessEqual => return .truth (meaning.lessEqual left right)
  | .greaterEqual => return .truth (meaning.greaterEqual left right)
  | .equal => return .truth (meaning.equal left right)
  | .notEqual => return .truth (meaning.notEqual left right)
  | .shiftLeft => return integerOperation meaning meaning.shiftLeft left right
  | .shiftRight => return integerOperation meaning meaning.shiftRight left right
  | .bitAnd => return integerOperation meaning (· &&& ·) left right
  | .bitXor => return integerOperation meaning (· ^^^ ·) left right
  | .bitOr => return integerOperation meaning (· ||| ·) left right
  | _ => failure

def binaryOperation (line : Nat) (operator : Operator) :
    Scalar R → Scalar R → Evaluation R (Scalar R)
  | .truth left, .truth right => fun world =>
    (truthOperation left right operator).map fun value => (.truth value, world)
  | .real left, .real right => realOperation meaning file line left right operator
  | _, _ => failure

def unaryOperation : Operator → Scalar R → Option (Scalar R)
  | .not, .truth value => some (.truth !value)
  | .minus, .real value => some (.real (meaning.negate value))
  | .complement, .real value => some (.real (meaning.ofInteger (~~~meaning.toInteger value)))
  | _, _ => none

end Operators

/-! ## The evaluator -/

section Evaluator

variable {R : Type} (meaning : Interpretation R) (file : String)

mutual

/-- Evaluates an expression; a call has no value. -/
def Expr.evaluate : Expr → Evaluation R (Option (Scalar R))
  | .boolean _ value => return some (.truth value)
  | .number _ value => return some (.real (meaning.literal value))
  | .identifier _ name => some <$> Evaluation.lookup name
  | .binary line operator left right => do
    let first ← Evaluation.required left.evaluate
    let second ← Evaluation.required right.evaluate
    some <$> binaryOperation meaning file line operator first second
  | .unary _ operator operand => do
    let value ← Evaluation.required operand.evaluate
    return some (← unaryOperation meaning operator value)
  | .assignment _ target value => do
    match target with
    | .identifier _ name =>
      let assigned ← Evaluation.required value.evaluate
      Evaluation.assign name assigned
      return some assigned
    | _ => failure
  | .call _ _ arguments => do
    let values ← evaluateAll arguments
    let _ ← Evaluation.call meaning "_kio_afficher"
      (.text (letters values) :: values.map Scalar.printed)
    return none
  | _ => failure

def evaluateAll : List Expr → Evaluation R (List (Scalar R))
  | [] => return []
  | argument :: rest => do
    let value ← Evaluation.required argument.evaluate
    return value :: (← evaluateAll rest)

end

variable (rounds : Nat)

mutual

/-- Runs a statement, each of its loops for at most so many rounds. -/
def Stmt.run : Stmt → Evaluation R Unit
  | .declaration _ name (.builtin .bool) => Evaluation.declare name (.truth false)
  | .declaration _ name (.builtin .real) =>
    Evaluation.declare name (.real (meaning.literal Binary64.zero))
  | .initialisation _ name value => do
    Evaluation.declare name (← Evaluation.required (value.evaluate meaning file))
  | .conditional _ condition consequent alternative => do
    if ← Evaluation.condition (condition.evaluate meaning file) then consequent.run
    else alternative.run
  | .loop _ condition body =>
    Evaluation.repeatWhile (Evaluation.condition (condition.evaluate meaning file)) body.run rounds
  | .expression value => do
    let _ ← value.evaluate meaning file
  | _ => failure

def Block.run : Block → Evaluation R Unit
  | .mk _ statements => runAll statements

def Alternative.run : Alternative → Evaluation R Unit
  | .absent => return
  | .block body => body.run
  | .conditional _ condition consequent alternative => do
    if ← Evaluation.condition (condition.evaluate meaning file) then consequent.run
    else alternative.run

def runAll : List Stmt → Evaluation R Unit
  | [] => return
  | first :: rest => do
    first.run
    runAll rest

end

end Evaluator

/-! ## The scalar fragment -/

section Fragment

variable (module : String)

mutual

/-- Whether the expression works on scalars only.  The print routine is the only one that is
called. -/
def Expr.isScalar : Expr → Bool
  | .boolean _ _ | .number _ _ | .identifier _ _ => true
  | .binary _ _ left right => left.isScalar && right.isScalar
  | .unary _ _ operand => operand.isScalar
  | .assignment _ (.identifier _ _) value => value.isScalar
  | .call _ callee arguments =>
    callee == Name.ofFunction module Catalogue.printSymbol && areScalar arguments
  | _ => false

def areScalar : List Expr → Bool
  | [] => true
  | first :: rest => first.isScalar && areScalar rest

end

mutual

/-- Whether the statement works on scalars only and declares nothing. -/
def Stmt.isPlain : Stmt → Bool
  | .conditional _ condition consequent alternative =>
    condition.isScalar module && consequent.isPlain && alternative.isPlain
  | .loop _ condition body => condition.isScalar module && body.isPlain
  | .expression value => value.isScalar module
  | _ => false

/-- Whether the statements of the block work on scalars only and declare nothing. -/
def Block.isPlain : Block → Bool
  | .mk _ statements => arePlain statements

/-- Whether what follows the first block of a conditional works on scalars only and declares
nothing. -/
def Alternative.isPlain : Alternative → Bool
  | .absent => true
  | .block body => body.isPlain
  | .conditional _ condition consequent alternative =>
    condition.isScalar module && consequent.isPlain && alternative.isPlain

/-- Whether all statements work on scalars only and declare nothing. -/
def arePlain : List Stmt → Bool
  | [] => true
  | first :: rest => first.isPlain && arePlain rest

end

/-- Whether the statement may stand in a scalar program: it declares a scalar, or it is plain. -/
def Stmt.isScalar : Stmt → Bool
  | .declaration _ _ (.builtin .bool) | .declaration _ _ (.builtin .real) => true
  | .initialisation _ _ value => value.isScalar module
  | stmt => stmt.isPlain module

end Fragment

/-! ## Termination -/

/-- Some bound on the rounds is enough to get from one world to another. -/
def Terminates {R : Type} (evaluation : Nat → Evaluation R Unit) (start final : World R) : Prop :=
  ∃ rounds, evaluation rounds start = some ((), final)

/-- More rounds make no difference once the evaluation has come to an end. -/
def Lasting {R : Type} (evaluation : Nat → Evaluation R Unit) : Prop :=
  ∀ less more start outcome, less ≤ more → evaluation less start = some outcome →
    evaluation more start = some outcome

section Termination

variable {R : Type} {first second : Nat → Evaluation R Unit} {start final : World R}

theorem Lasting.const (evaluation : Evaluation R Unit) : Lasting fun _ => evaluation :=
  fun _ _ _ _ _ same => same

theorem Lasting.bind {α : Type} {evaluation : Evaluation R α} {next : α → Nat → Evaluation R Unit}
    (lasting : ∀ value, Lasting (next value)) :
    Lasting fun rounds => evaluation >>= fun value => next value rounds := by
  intro less more start outcome bound same
  obtain ⟨⟨value, middle⟩, evaluated, rest⟩ := Option.bind_eq_some_iff.mp same
  exact Option.bind_eq_some_iff.mpr
    ⟨(value, middle), evaluated, lasting value less more middle outcome bound rest⟩

theorem Lasting.seq (lastingFirst : Lasting first) (lastingSecond : Lasting second) :
    Lasting fun rounds => first rounds >>= fun _ => second rounds := by
  intro less more start outcome bound same
  obtain ⟨⟨⟨⟩, middle⟩, evaluated, rest⟩ := Option.bind_eq_some_iff.mp same
  exact Option.bind_eq_some_iff.mpr ⟨((), middle), lastingFirst less more start _ bound evaluated,
    lastingSecond less more middle outcome bound rest⟩

theorem terminates_seq_iff (lastingFirst : Lasting first) (lastingSecond : Lasting second) :
    Terminates (fun rounds => first rounds >>= fun _ => second rounds) start final ↔
      ∃ middle, Terminates first start middle ∧ Terminates second middle final := by
  constructor
  · intro ⟨rounds, same⟩
    obtain ⟨⟨⟨⟩, middle⟩, evaluated, rest⟩ := Option.bind_eq_some_iff.mp same
    exact ⟨middle, ⟨rounds, evaluated⟩, ⟨rounds, rest⟩⟩
  · intro ⟨middle, ⟨rounds, evaluated⟩, ⟨more, rest⟩⟩
    refine ⟨max rounds more, Option.bind_eq_some_iff.mpr ⟨((), middle), ?_, ?_⟩⟩
    · exact lastingFirst _ _ _ _ (Nat.le_max_left rounds more) evaluated
    · exact lastingSecond _ _ _ _ (Nat.le_max_right rounds more) rest

theorem terminates_bind_iff {α : Type} {evaluation : Evaluation R α}
    {next : α → Nat → Evaluation R Unit} :
    Terminates (fun rounds => evaluation >>= fun value => next value rounds) start final ↔
      ∃ value middle, evaluation start = some (value, middle) ∧
        Terminates (next value) middle final := by
  constructor
  · intro ⟨rounds, same⟩
    obtain ⟨⟨value, middle⟩, evaluated, rest⟩ := Option.bind_eq_some_iff.mp same
    exact ⟨value, middle, evaluated, rounds, rest⟩
  · intro ⟨value, middle, evaluated, rounds, rest⟩
    exact ⟨rounds, Option.bind_eq_some_iff.mpr ⟨(value, middle), evaluated, rest⟩⟩

section Loop

variable {test : Evaluation R Bool} {body : Nat → Evaluation R Unit}

theorem repeatWhile_succ (body : Evaluation R Unit) (rounds : Nat) :
    Evaluation.repeatWhile test body (rounds + 1) = test >>= fun holds =>
      if holds then body >>= fun _ => Evaluation.repeatWhile test body rounds else pure () := by
  rfl

theorem repeatWhile_lasting (lasting : Lasting body) {less more rounds others : Nat}
    {outcome : Unit × World R} (bound : less ≤ more) (fewer : rounds ≤ others)
    (same : Evaluation.repeatWhile test (body less) rounds start = some outcome) :
    Evaluation.repeatWhile test (body more) others start = some outcome := by
  induction rounds generalizing others start with
  | zero => cases same
  | succ rounds ih =>
    obtain ⟨others, rfl⟩ : ∃ count, others = count + 1 := ⟨others - 1, by omega⟩
    rw [repeatWhile_succ] at same ⊢
    obtain ⟨⟨holds, tested⟩, evaluated, rest⟩ := Option.bind_eq_some_iff.mp same
    apply Option.bind_eq_some_iff.mpr
    refine ⟨(holds, tested), evaluated, ?_⟩
    cases holds with
    | false => exact rest
    | true =>
      obtain ⟨⟨⟨⟩, middle⟩, ran, again⟩ := Option.bind_eq_some_iff.mp rest
      apply Option.bind_eq_some_iff.mpr
      exact ⟨((), middle), lasting _ _ _ _ bound ran, ih (by omega) again⟩

theorem Lasting.repeatWhile (lasting : Lasting body) :
    Lasting fun rounds => Evaluation.repeatWhile test (body rounds) rounds :=
  fun _ _ _ _ bound same => repeatWhile_lasting lasting bound bound same

/-- A loop terminates by going through its rounds. -/
theorem terminates_repeatWhile_iff (lasting : Lasting body) :
    Terminates (fun rounds => Evaluation.repeatWhile test (body rounds) rounds) start final ↔
      Rounds test (Terminates body) start final := by
  constructor
  · intro ⟨bound, same⟩
    -- The bound on the rounds of this loop decreases, the one on the loops in its body stays.
    have general : ∀ rounds start,
        Evaluation.repeatWhile test (body bound) rounds start = some ((), final) →
        Rounds test (Terminates body) start final := by
      intro rounds
      induction rounds with
      | zero => nofun
      | succ rounds ih =>
        intro start same
        rw [repeatWhile_succ] at same
        obtain ⟨⟨holds, tested⟩, evaluated, rest⟩ := Option.bind_eq_some_iff.mp same
        cases holds with
        | false =>
          cases rest
          exact .finish evaluated
        | true =>
          obtain ⟨⟨⟨⟩, middle⟩, ran, again⟩ := Option.bind_eq_some_iff.mp rest
          exact .again evaluated ⟨bound, ran⟩ (ih middle again)
    exact general bound start same
  · intro goes
    induction goes with
    | finish tested =>
      exact ⟨1, Option.bind_eq_some_iff.mpr ⟨_, tested, rfl⟩⟩
    | again tested ran _ ih =>
      obtain ⟨rounds, ran⟩ := ran
      obtain ⟨others, rest⟩ := ih
      refine ⟨max rounds others + 1, Option.bind_eq_some_iff.mpr ⟨_, tested, ?_⟩⟩
      refine Option.bind_eq_some_iff.mpr ⟨_, lasting _ _ _ _ ?_ ran, ?_⟩
      · exact Nat.le_succ_of_le (Nat.le_max_left rounds others)
      · apply repeatWhile_lasting lasting _ _ rest
        · exact Nat.le_succ_of_le (Nat.le_max_right rounds others)
        · exact Nat.le_max_right rounds others

end Loop

end Termination

section Steadiness

variable {R : Type} (meaning : Interpretation R) (file : String)

theorem Lasting.choice {condition : Evaluation R Bool} {first second : Nat → Evaluation R Unit}
    (lastingFirst : Lasting first) (lastingSecond : Lasting second) :
    Lasting fun rounds => condition >>= fun holds =>
      if holds then first rounds else second rounds := by
  apply Lasting.bind
  intro holds
  cases holds with
  | true => exact lastingFirst
  | false => exact lastingSecond

mutual

theorem Stmt.lasting_run (stmt : Stmt) : Lasting fun rounds => stmt.run meaning file rounds := by
  cases stmt with
  | conditional line condition consequent rest =>
    exact .choice (Block.lasting_run consequent) (Alternative.lasting_run rest)
  | loop line condition body => exact .repeatWhile (Block.lasting_run body)
  | declaration line name type =>
    cases type with
    | builtin type => cases type <;> exact .const _
    | list element => exact .const _
    | entity name symbol => exact .const _
  | initialisation line name value => exact .const _
  | expression value => exact .const _
  | entity definition => exact .const _
  | function line prototype body => exact .const _
  | result line value => exact .const _
  | inclusion written => exact .const _

theorem Block.lasting_run (block : Block) :
    Lasting fun rounds => block.run meaning file rounds := by
  cases block with
  | mk line statements => exact lasting_runAll statements

theorem Alternative.lasting_run (rest : Alternative) :
    Lasting fun rounds => rest.run meaning file rounds := by
  cases rest with
  | absent => exact .const _
  | block body => exact Block.lasting_run body
  | conditional line condition consequent rest =>
    exact .choice (Block.lasting_run consequent) (Alternative.lasting_run rest)

theorem lasting_runAll (statements : List Stmt) :
    Lasting fun rounds => runAll meaning file rounds statements := by
  cases statements with
  | nil => exact .const _
  | cons first rest => exact .seq (Stmt.lasting_run first) (lasting_runAll rest)

end

end Steadiness

end Source

end Kronk
