import Kronk.Proofs.Lookups
import Kronk.Proofs.Mangling
import Kronk.Proofs.ScalarCode

/-!
# The code of scalar expressions

The code of a scalar expression computes what the evaluator computes.
-/

namespace Kronk.Lowering

open IR (State executeAll)
open Source (Scalar World Evaluation)

variable {arithmetic : IR.Arithmetic} {bound : Nat}

section Expressions

variable {R : Type} {meaning : Interpretation R} {texts : List String}

/-! ## Operators -/

/-- Nothing has to be done to make a scalar a real, or to keep it. -/
theorem widen_eq {operand : Operand} (typed : IsScalarType operand.type) :
    widen operand = pure operand := by
  obtain ⟨value, type, inPlace⟩ := operand
  rcases typed with rfl | rfl
  · rfl
  · rfl

variable {operator : Operator}

theorem booleanOperation_executes {left right : IR.Value} {operation : IR.Operation}
    {first second : Bool} {state : State R}
    (found : booleanOperation? left right operator = some operation)
    (readsLeft : left.read meaning texts state = some (.truth first))
    (readsRight : right.read meaning texts state = some (.truth second)) :
    ∃ value, Source.truthOperation first second operator = some value ∧
      operation.execute meaning texts state = some (some (.truth value), state) := by
  cases operator with
  | equal =>
    cases found
    refine ⟨first == second, rfl, ?_⟩
    simp [IR.Operation.execute, readsLeft, readsRight, IR.compareData]
  | notEqual =>
    cases found
    refine ⟨first != second, rfl, ?_⟩
    simp [IR.Operation.execute, readsLeft, readsRight, IR.compareData, bne]
  | and =>
    cases found
    refine ⟨first && second, rfl, ?_⟩
    simp [IR.Operation.execute, readsLeft, readsRight, IR.Arithmetic.apply]
  | or =>
    cases found
    refine ⟨first || second, rfl, ?_⟩
    simp [IR.Operation.execute, readsLeft, readsRight, IR.Arithmetic.apply]
  | _ => cases found

private theorem realPredicate_evaluates (file : String) (line : Nat) {predicate : IR.RealPredicate}
    (found : realPredicate? operator = some predicate) (left right : R) :
    Source.realOperation meaning file line left right operator =
      pure (.truth (predicate.apply meaning left right)) := by
  cases operator <;> cases found <;> rfl

/-- The operation on words that an operation on integer parts stands for. -/
theorem bitwise_evaluates (file : String) (line : Nat)
    (found : bitwise? operator = some arithmetic) :
    ∃ operation, (∀ left right, Source.realOperation meaning file line left right operator =
        pure (Source.integerOperation meaning operation left right)) ∧
      ∀ left right, arithmetic.apply meaning (.word left) (.word right) =
        some (.word (operation left right)) := by
  cases operator <;> cases found <;> exact ⟨_, fun _ _ => rfl, fun _ _ => rfl⟩

theorem realArithmetic_evaluates (file : String) (line : Nat)
    (found : realArithmetic? operator = some arithmetic) (other : operator ≠ .divide) :
    ∃ operation : R → R → R,
      (∀ left right, Source.realOperation meaning file line left right operator =
        pure (.real (operation left right))) ∧
      ∀ left right, arithmetic.apply meaning (.real left) (.real right) =
        some (.real (operation left right)) := by
  cases operator with
  | divide => exact absurd rfl other
  | times => cases found; exact ⟨_, fun _ _ => rfl, fun _ _ => rfl⟩
  | modulo => cases found; exact ⟨_, fun _ _ => rfl, fun _ _ => rfl⟩
  | plus => cases found; exact ⟨_, fun _ _ => rfl, fun _ _ => rfl⟩
  | minus => cases found; exact ⟨_, fun _ _ => rfl, fun _ _ => rfl⟩
  | _ => cases found

def BothReal (meaning : Interpretation R) (texts : List String) (left right : IR.Value)
    (numbers : R × R) (state : State R) : Prop :=
  left.read meaning texts state = some (.real numbers.1) ∧
    right.read meaning texts state = some (.real numbers.2)

section Operations

variable {module file : String} {before after : Workbench} {line : Nat} {left right : IR.Value}
  {operator : Operator} {operand : Operand}

theorem BothReal.kept {numbers : R × R} {state final : State R} (belowLeft : Below bound left)
    (belowRight : Below bound right) (agree : Agree bound state final)
    (both : BothReal meaning texts left right numbers state) :
    BothReal meaning texts left right numbers final := by
  constructor
  · rw [belowLeft.read agree]
    exact both.1
  · rw [belowRight.read agree]
    exact both.2

section

variable (scalar : ScalarBench module file before)

include scalar

/-- One operation computes a scalar. -/
theorem compute_yields {γ : Type} {given : γ → State R → Prop}
    {evaluation : γ → Evaluation R (Scalar R)} {operation : IR.Operation} {type : Ty}
    (typed : IsScalarType type)
    (executes : ∀ known state, given known state → ∃ value, evaluation known = pure value ∧
      value.type = type ∧ operation.execute meaning texts state = some (some value.datum, state))
    (outcome : (do return ⟨← Lower.emit (Emit.compute operation), type, false⟩ :
      Lower Operand) before = .ok operand after) :
    Yields module file meaning texts before after given evaluation operand := by
  obtain ⟨value, middle, computed, same⟩ := bind_eq_ok outcome
  cases same
  obtain ⟨rfl, larger, lowers⟩ := scalar.compute computed
  refine ⟨_, lowers, ⟨?_, typed⟩, ?_⟩
  · rw [larger]
    exact below_result _ _
  · intro _ known world state matched holds
    obtain ⟨value, evaluates, sameType, executed⟩ := executes known state holds
    rw [evaluates]
    have here : ∀ other, other = state →
        operation.execute meaning texts other = some (some value.datum, other) := by
      rintro _ rfl
      exact executed
    exact Computes.defineScalar scalar.belows sameType here world state matched rfl

/-- The operand is what an operator gives for two reals. -/
abbrev Applies (module file : String) (meaning : Interpretation R) (texts : List String)
    (before after : Workbench) (line : Nat) (operator : Operator) (left right : IR.Value)
    (operand : Operand) : Prop :=
  Yields module file meaning texts before after (BothReal meaning texts left right)
    (fun numbers => Source.realOperation meaning file line numbers.1 numbers.2 operator) operand

private theorem compareReal_yields {predicate : IR.RealPredicate}
    (found : realPredicate? operator = some predicate)
    (outcome : (do
      return ⟨← Lower.emit (Emit.compute (.compareReal predicate left right)), .bool, false⟩ :
        Lower Operand) before = .ok operand after) :
    Applies module file meaning texts before after line operator left right operand := by
  refine compute_yields scalar (.inl rfl) ?_ outcome
  intro numbers state given
  refine ⟨_, realPredicate_evaluates file line found _ _, rfl, ?_⟩
  simp [IR.Operation.execute, IR.Value.double?, given.1, given.2, Scalar.datum]

theorem integerParts_yields (belowRight : Below before.frame.draft.temporaries right)
    (found : bitwise? operator = some arithmetic) (outcome : (do
      return ⟨← Lower.emit (integerParts arithmetic left right), .real, false⟩ :
        Lower Operand) before = .ok operand after) :
    Applies module file meaning texts before after line operator left right operand := by
  obtain ⟨value, final, computed, same⟩ := bind_eq_ok outcome
  cases same
  unfold integerParts at computed
  obtain ⟨leftPart, bench₁, first, computed⟩ := emit_bind_eq_ok computed
  obtain ⟨rightPart, bench₂, second, computed⟩ := emit_bind_eq_ok computed
  obtain ⟨combined, bench₃, third, last⟩ := emit_bind_eq_ok computed
  obtain ⟨rfl, larger₁, lowers₁⟩ := scalar.compute first
  obtain ⟨rfl, larger₂, lowers₂⟩ := lowers₁.scalar.compute second
  obtain ⟨rfl, larger₃, lowers₃⟩ := lowers₂.scalar.compute third
  obtain ⟨rfl, larger₄, lowers₄⟩ := lowers₃.scalar.compute last
  obtain ⟨operation, evaluates, applies⟩ := @bitwise_evaluates _ R meaning _ file line found
  have lowers := lowers₁.trans (lowers₂.trans (lowers₃.trans lowers₄ lowers₂.scalar.valid)
    lowers₁.scalar.valid) scalar.valid
  refine ⟨_, lowers, ⟨?_, .inr rfl⟩, ?_⟩
  · rw [larger₄]
    exact below_result _ _
  · intro _ numbers
    dsimp only
    rw [evaluates]
    apply lowers.computes scalar
    intro state given
    have readsRight : ∀ datum, right.read meaning texts
        (state.define (.temporary before.frame.draft.temporaries) datum) =
          some (.real numbers.2) := by
      intro datum
      rw [belowRight.read (Computes.agree_define state datum)]
      exact given.2
    simp [executeAll, IR.Instruction.execute, IR.Operation.execute, IR.Conversion.apply,
      given.1, readsRight, applies, larger₃, larger₂, larger₁, Holds, Source.integerOperation,
      Scalar.datum, Scalar.type]

theorem arithmetic_yields
    (found : realArithmetic? operator = some arithmetic) (other : operator ≠ .divide) (outcome : (do
      return ⟨← Lower.emit (Emit.compute (.arithmetic arithmetic left right)), .real, false⟩ :
        Lower Operand) before = .ok operand after) :
    Applies module file meaning texts before after line operator left right operand := by
  obtain ⟨operation, evaluates, applies⟩ :=
    @realArithmetic_evaluates _ R meaning _ file line found other
  refine compute_yields scalar (.inr rfl) ?_ outcome
  intro numbers state given
  refine ⟨_, evaluates _ _, rfl, ?_⟩
  simp [IR.Operation.execute, given.1, given.2, applies, Scalar.datum]

/-- A divisor is checked with the place of the division. -/
theorem divisorCheck_computes (outcome : check .divisorCheck line [right] before = .ok () after) :
    ∃ code, Lowers module file before code after ∧
      (after.frame.draft.texts <+: texts → ∀ number, Computes meaning texts before.binding?
        (fun state => right.read meaning texts state = some (.real number)) code
        (Evaluation.call meaning "_kronk_zero_div_check"
          [.real number, .text file, .word (BitVec.ofNat 64 line)]) fun _ _ => True) := by
  change Lower.emit (Emit.check .divisorCheck before.frame.fileName line [right]) before =
    .ok () after at outcome
  unfold Emit.check at outcome
  obtain ⟨callee, middle, declared, performed⟩ := emit_bind_eq_ok outcome
  change Lower.emit (do Emit.callee (← Emit.declare (Routine.declaration .divisorCheck))) before =
    .ok callee middle at declared
  obtain ⟨isNamed, isVoid, declares⟩ := scalar.declare rfl rfl declared
  have performs := declares.scalar.perform performed
  refine ⟨_, declares.trans performs scalar.valid, ?_⟩
  intro starts number
  have named : callee.name = "_kronk_zero_div_check" := isNamed
  rw [← named]
  apply Computes.callVoid isVoid
  intro state given
  obtain ⟨position, length, isText, found⟩ := scalar.named
  have held := getElem?_of_prefix ((declares.texts.trans performs.texts).trans starts) found
  rw [isText]
  simp [given, IR.read_text length state held]

theorem division_yields (belowLeft : Below before.frame.draft.temporaries left)
    (belowRight : Below before.frame.draft.temporaries right)
    (outcome : (do
      check .divisorCheck line [right]
      return ⟨← Lower.emit (Emit.compute (.arithmetic .fdiv left right)), .real, false⟩ :
        Lower Operand) before = .ok operand after) :
    Applies module file meaning texts before after line .divide left right operand := by
  obtain ⟨_, bench, checked, outcome⟩ := bind_eq_ok outcome
  obtain ⟨value, middle, computed, same⟩ := bind_eq_ok outcome
  cases same
  obtain ⟨code, checks, computes⟩ := divisorCheck_computes scalar checked
  obtain ⟨rfl, larger, lowers⟩ := checks.scalar.compute computed
  refine ⟨_, checks.trans lowers scalar.valid, ⟨?_, .inr rfl⟩, ?_⟩
  · rw [larger]
    exact below_result _ _
  · intro starts numbers
    have stable : ∀ state final, Agree before.frame.draft.temporaries state final →
        BothReal meaning texts left right numbers state →
        BothReal meaning texts left right numbers final :=
      fun _ _ => BothReal.kept belowLeft belowRight
    have framed := checks.frame (computes (lowers.texts.trans starts) numbers.2) stable
    apply Computes.bind (framed.weaken (fun _ both => ⟨both.2, both⟩) fun _ _ holds => holds)
    intro _
    rw [← checks.binding?]
    apply Computes.defineScalar checks.scalar.belows rfl
    intro state given
    simp [IR.Operation.execute, given.2.1, given.2.2, IR.Arithmetic.apply, Scalar.datum]

theorem power_yields {power : Signature} {result : Option Operand}
    (isPower : Catalogue.function? "math" "puiss" = some power)
    (outcome : Lower.emit (callSignature power [left, right]) before = .ok result after) :
    ∃ operand, result = some operand ∧
      Applies module file meaning texts before after line .power left right operand := by
  cases isPower
  let function : IR.Function :=
    { name := "_kmath_puiss", result := .double, parameters := [("p0", .double), ("p1", .double)] }
  change Lower.emit (do
    let callee ← (do Emit.callee (← Emit.declare function))
    let result ← Emit.call callee [left, right]
    return some ⟨result, .real, false⟩) before = .ok result after at outcome
  obtain ⟨callee, middle, declared, outcome⟩ := emit_bind_eq_ok outcome
  obtain ⟨value, called, computed, same⟩ := emit_bind_eq_ok outcome
  cases same
  obtain ⟨isNamed, isReal, declares⟩ := scalar.declare rfl rfl declared
  have isReal : callee.result = .double := isReal
  have named : callee.name = "_kmath_puiss" := isNamed
  unfold Emit.call at computed
  rw [isReal] at computed
  obtain ⟨rfl, larger, lowers⟩ := declares.scalar.compute computed
  refine ⟨_, rfl, _, declares.trans lowers scalar.valid, ⟨?_, .inr rfl⟩, ?_⟩
  · change Below called.frame.draft.temporaries _
    rw [larger]
    exact below_result _ _
  · intro _ numbers
    rw [List.nil_append, ← declares.binding?]
    dsimp only [Source.realOperation]
    rw [← named]
    apply Computes.map (Computes.call declares.scalar.belows isReal _)
    · intro answer state holds
      exact ⟨holds, rfl⟩
    · intro state given
      simp [given.1, given.2]

theorem realBinary_yields (belowLeft : Below before.frame.draft.temporaries left)
    (belowRight : Below before.frame.draft.temporaries right)
    (outcome : realBinary line operator left right before = .ok operand after) :
    Applies module file meaning texts before after line operator left right operand := by
  unfold realBinary at outcome
  cases predicated : realPredicate? operator with
  | some predicate =>
    rw [predicated] at outcome
    exact compareReal_yields scalar predicated outcome
  | none =>
  rw [predicated] at outcome
  cases isBitwise : bitwise? operator with
  | some arithmetic =>
    rw [isBitwise] at outcome
    exact integerParts_yields scalar belowRight isBitwise outcome
  | none =>
  rw [isBitwise] at outcome
  cases isArithmetic : realArithmetic? operator with
  | some arithmetic =>
    rw [isArithmetic] at outcome
    by_cases divides : operator = .divide
    · subst divides
      cases isArithmetic
      exact division_yields scalar belowLeft belowRight outcome
    · simp only [if_neg divides] at outcome
      exact arithmetic_yields scalar isArithmetic divides outcome
  | none =>
  rw [isArithmetic] at outcome
  cases isPower : Catalogue.function? "math" "puiss" with
  | none => cases isPower
  | some power =>
  rw [isPower] at outcome
  cases operator with
  | power =>
    obtain ⟨result, middle, called, outcome⟩ := bind_eq_ok outcome
    obtain ⟨operand, rfl, yields⟩ := power_yields scalar isPower called
    cases outcome
    exact yields
  | _ => cases outcome

def BothHold (meaning : Interpretation R) (texts : List String) (left right : Operand)
    (values : Scalar R × Scalar R) (state : State R) : Prop :=
  Holds meaning texts left values.1 state ∧ Holds meaning texts right values.2 state

theorem booleanOperation_yields {operation : IR.Operation}
    (found : booleanOperation? left right operator = some operation)
    (outcome : (do return ⟨← Lower.emit (Emit.compute operation), .bool, false⟩ :
        Lower Operand) before = .ok operand after) : Yields module file meaning texts before after
      (BothHold meaning texts ⟨left, .bool, false⟩ ⟨right, .bool, false⟩)
      (fun values => Source.binaryOperation meaning file line operator values.1 values.2)
      operand := by
  refine compute_yields scalar (.inl rfl) ?_ outcome
  intro values state given
  obtain ⟨first, isFirst, readsFirst⟩ := given.1.truth
  obtain ⟨second, isSecond, readsSecond⟩ := given.2.truth
  obtain ⟨result, evaluates, executes⟩ := booleanOperation_executes found readsFirst readsSecond
  refine ⟨.truth result, ?_, rfl, executes⟩
  rw [isFirst, isSecond, Source.binaryOperation, evaluates]
  rfl

theorem binaryOperation_yields {left right : Operand}
    (isLeft : IsScalar before.frame.draft.temporaries left)
    (isRight : IsScalar before.frame.draft.temporaries right)
    (outcome : binaryOperation line operator left right before = .ok operand after) :
    Yields module file meaning texts before after (BothHold meaning texts left right)
      (fun values => Source.binaryOperation meaning file line operator values.1 values.2)
      operand := by
  obtain ⟨leftValue, leftType, _⟩ := left
  obtain ⟨rightValue, rightType, _⟩ := right
  rcases isLeft.typed with rfl | rfl <;> rcases isRight.typed with rfl | rfl
  · rw [binaryOperation] at outcome
    cases found : booleanOperation? leftValue rightValue operator with
    | none =>
      simp only [found] at outcome
      cases outcome
    | some operation =>
      simp only [found] at outcome
      exact booleanOperation_yields scalar found outcome
  · cases outcome
  · cases outcome
  · change realBinary line operator leftValue rightValue before = _ at outcome
    obtain ⟨code, lowers, isScalar, computes⟩ :=
      realBinary_yields scalar isLeft.below isRight.below outcome
    refine ⟨code, lowers, isScalar, ?_⟩
    intro starts values world state matched given
    obtain ⟨first, isFirst, readsFirst⟩ := given.1.real
    obtain ⟨second, isSecond, readsSecond⟩ := given.2.real
    simp only [isFirst, isSecond, Source.binaryOperation]
    exact computes starts (first, second) world state matched ⟨readsFirst, readsSecond⟩

variable {value : IR.Value} {name : String}

theorem complement_yields (outcome : (do
      let part ← Lower.emit (Emit.compute (.convert .fptosi value .i64))
      let flipped ← Lower.emit (Emit.compute (.arithmetic .xor part (.int64 (-1))))
      return ⟨← Lower.emit (Emit.compute (.convert .sitofp flipped .double)), .real, false⟩ :
        Lower Operand) before = .ok operand after) : Yields module file meaning texts before after
      (fun number state => value.read meaning texts state = some (.real number))
      (fun number => pure (.real (meaning.ofInteger (~~~meaning.toInteger number)))) operand := by
  obtain ⟨part, bench₁, first, outcome⟩ := bind_eq_ok outcome
  obtain ⟨flipped, bench₂, second, outcome⟩ := bind_eq_ok outcome
  obtain ⟨result, bench₃, third, same⟩ := bind_eq_ok outcome
  cases same
  obtain ⟨rfl, larger₁, lowers₁⟩ := scalar.compute first
  obtain ⟨rfl, larger₂, lowers₂⟩ := lowers₁.scalar.compute second
  obtain ⟨rfl, larger₃, lowers₃⟩ := lowers₂.scalar.compute third
  have lowers := lowers₁.trans (lowers₂.trans lowers₃ lowers₁.scalar.valid) scalar.valid
  refine ⟨_, lowers, ⟨?_, .inr rfl⟩, ?_⟩
  · rw [larger₃]
    exact below_result _ _
  · intro _ number
    apply lowers.computes scalar
    intro state given
    have flips : ∀ word, IR.Arithmetic.apply meaning .xor (.word word)
        (.word (BitVec.ofInt 64 (-1))) = some (.word (~~~word)) := by
      intro word
      exact congrArg (some <| Datum.word ·) BitVec.xor_allOnes
    simp only [List.cons_append, List.nil_append, executeAll, IR.Instruction.execute,
      IR.Operation.execute, IR.Conversion.apply, given, larger₂, larger₁, IR.Value.read_result,
        IR.Value.read_int64, State.results_define,
      if_true, Option.bind_eq_bind, Option.bind_some, Option.pure_def, Option.elim_some, flips]
    refine ⟨_, rfl, rfl, rfl, ?_, rfl⟩
    simp [Scalar.datum]

theorem unaryOperation_yields {source : Operand} (typed : IsScalarType source.type)
    (outcome : unaryOperation line operator source before = .ok operand after) :
    Yields module file meaning texts before after (Holds meaning texts source)
      (fun value => liftM (Source.unaryOperation meaning operator value)) operand := by
  obtain ⟨sourceValue, sourceType, _⟩ := source
  unfold unaryOperation at outcome
  rcases typed with rfl | rfl
  · cases operator with
    | not =>
      change (do return ⟨← Lower.emit (Emit.compute
        (.arithmetic .xor sourceValue (.boolean true))), .bool, false⟩ : Lower Operand) before =
          _ at outcome
      refine compute_yields scalar (.inl rfl) ?_ outcome
      intro value state given
      obtain ⟨truth, rfl, reads⟩ := given.truth
      refine ⟨.truth !truth, rfl, rfl, ?_⟩
      simp [IR.Operation.execute, reads, IR.Arithmetic.apply, Scalar.datum]
    | _ => cases outcome
  · cases operator with
    | minus =>
      change (do return ⟨← Lower.emit (Emit.compute (.negate sourceValue)), .real, false⟩ :
        Lower Operand) before = _ at outcome
      refine compute_yields scalar (.inr rfl) ?_ outcome
      intro value state given
      obtain ⟨number, rfl, reads⟩ := given.real
      refine ⟨.real (meaning.negate number), rfl, rfl, ?_⟩
      simp [IR.Operation.execute, reads, IR.Value.double?, Scalar.datum]
    | complement =>
      change (do
        let part ← Lower.emit (Emit.compute (.convert .fptosi sourceValue .i64))
        let flipped ← Lower.emit (Emit.compute (.arithmetic .xor part (.int64 (-1))))
        return ⟨← Lower.emit (Emit.compute (.convert .sitofp flipped .double)), .real, false⟩ :
          Lower Operand) before = _ at outcome
      obtain ⟨code, lowers, isScalar, computes⟩ := complement_yields scalar outcome
      refine ⟨code, lowers, isScalar, ?_⟩
      intro starts value world state matched given
      obtain ⟨number, rfl, reads⟩ := given.real
      exact computes starts number world state matched reads
    | _ => cases outcome

end

/-! ## Names -/

theorem binding_eq_ok {found : Binding} (outcome : binding line name before = .ok found after) :
    before.binding? name = some found ∧ before = after := by
  unfold binding at outcome
  obtain ⟨scope, _, ⟨⟩, outcome⟩ := bind_eq_ok outcome
  cases isBound : before.binding? name with
  | none =>
    rw [Workbench.binding?] at isBound
    rw [isBound] at outcome
    cases outcome
  | some found =>
    rw [Workbench.binding?] at isBound
    rw [isBound] at outcome
    cases outcome
    exact ⟨rfl, rfl⟩

theorem identifier_yields {result : Option Operand} (scalar : ScalarBench module file before)
    (outcome : (identifier line name).load before = .ok result after) :
    ∃ operand, result = some operand ∧
      Yields module file meaning texts before after (fun (_ : Unit) _ => True)
        (fun _ => Evaluation.lookup name) operand := by
  obtain ⟨found, _, bound, outcome⟩ := bind_eq_ok outcome
  obtain ⟨isBound, rfl⟩ := binding_eq_ok bound
  obtain ⟨_, typed⟩ := scalar.slots name found isBound
  have loads : ∃ layout, (do
      return some ⟨← Lower.emit (Emit.compute (.load layout found.address)), found.type, false⟩ :
        Lower (Option Operand)) before = .ok result after := by
    obtain ⟨address, type⟩ := found
    rcases typed with rfl | rfl
    · exact ⟨.i1, outcome⟩
    · exact ⟨.double, outcome⟩
  obtain ⟨layout, loads⟩ := loads
  obtain ⟨value, middle, computed, same⟩ := bind_eq_ok loads
  cases same
  obtain ⟨rfl, larger, lowers⟩ := scalar.compute computed
  refine ⟨_, rfl, _, lowers, ⟨?_, typed⟩, ?_⟩
  · rw [larger]
    exact below_result _ _
  · intro _ _ world state matched _
    obtain ⟨slot, value, isSlot, holds, isValue, sameType⟩ := matched.held name found isBound
    have matchedAfter : Matches meaning texts before.binding? world
        (state.define (.temporary before.frame.draft.temporaries) (some value.datum)) :=
      matched.kept scalar.belows (Computes.agree_define state _) rfl rfl
    have executed : executeAll meaning texts
        [⟨some (.temporary before.frame.draft.temporaries), .load layout found.address⟩] state =
        some (state.define (.temporary before.frame.draft.temporaries) (some value.datum)) := by
      simp [IR.executeAll_singleton, IR.Instruction.execute, IR.Operation.execute, isSlot, holds]
    have evaluated : Evaluation.lookup name world = some (value, world) := by
      simp [Evaluation.lookup, isValue]
    dsimp only
    rw [executed, evaluated]
    refine .some ⟨matchedAfter, ?_, sameType⟩
    simp

theorem assignPrimitive_yields {found : Binding} {source : Operand} {inPlace : Bool}
    (scalar : ScalarBench module file before) (isBound : before.binding? name = some found)
    (isSource : IsScalar before.frame.draft.temporaries source)
    (outcome : assignPrimitive line ⟨found.address, found.type, inPlace⟩ source before =
      .ok operand after) :
    Yields module file meaning texts before after (Holds meaning texts source)
      (fun value => do
        Evaluation.assign name value
        return value) operand := by
  obtain ⟨_, typed⟩ := scalar.slots name found isBound
  have stores : source.type = found.type ∧ (do
      Lower.emit (Emit.store source.value found.address)
      return source : Lower Operand) before = .ok operand after := by
    obtain ⟨value, type, _⟩ := source
    obtain ⟨address, target⟩ := found
    rcases isSource.typed with rfl | rfl <;> rcases typed with rfl | rfl
    · exact ⟨rfl, outcome⟩
    · cases outcome
    · cases outcome
    · exact ⟨rfl, outcome⟩
  obtain ⟨sameType, stores⟩ := stores
  obtain ⟨_, middle, stored, same⟩ := bind_eq_ok stores
  cases same
  have lowers := scalar.perform stored
  refine ⟨_, lowers, isSource.mono lowers.grows.temporaries, ?_⟩
  intro _ value world state matched given
  obtain ⟨slot, old, isSlot, held, isValue, _⟩ := matched.held name found isBound
  have inside : slot < state.memory.length := (List.getElem?_eq_some_iff.mp held).1
  have executed : executeAll meaning texts [⟨none, .store operand.value found.address⟩] state =
      some { state with memory := state.memory.set slot (some value.datum) } := by
    simp [IR.executeAll_singleton, IR.Instruction.execute, IR.Operation.execute, isSlot, given.1,
      inside]
  have evaluated : (do
      Evaluation.assign name value
      return value : Evaluation R (Scalar R)) world =
      some (value, { world with values := world.values.insert name value }) := by
    change (Evaluation.assign name value world).bind _ = _
    rw [Evaluation.assign, Table.contains, isValue]
    rfl
  dsimp only
  rw [executed, evaluated]
  have agree : Agree before.frame.draft.temporaries state
      { state with memory := state.memory.set slot (some value.datum) } := fun _ _ => rfl
  exact .some ⟨matched.assign isBound isSlot (given.2.trans sameType) rfl rfl rfl,
    given.kept isSource.below agree⟩

end Operations

/-! ## Fragments -/

section Fragments

variable {module file : String} {before after : Workbench} {line : Nat}

/-- A fragment has straight code that does what an evaluation does. -/
def Fragment.Follows (module file : String) (meaning : Interpretation R) (texts : List String)
    (fragment : Fragment) (evaluation : Evaluation R (Option (Scalar R))) : Prop :=
  ∀ before after result, ScalarBench module file before →
    fragment.load before = .ok result after →
    ∃ code, Lowers module file before code after ∧
      (∀ operand, result = some operand → IsScalar after.frame.draft.temporaries operand) ∧
      (after.frame.draft.texts <+: texts → Computes meaning texts before.binding? (fun _ => True)
        code evaluation fun value state =>
          Option.Rel (fun scalar operand => Holds meaning texts operand scalar state) value result)

variable {fragment : Fragment} {evaluation : Evaluation R (Option (Scalar R))} {state : State R}

theorem Fragment.Follows.value {operand : Operand}
    (follows : fragment.Follows module file meaning texts evaluation)
    (scalar : ScalarBench module file before)
    (outcome : fragment.value before = .ok operand after) :
    Yields module file meaning texts before after (fun (_ : Unit) _ => True)
      (fun _ => Evaluation.required evaluation) operand := by
  obtain ⟨result, middle, loaded, outcome⟩ := bind_eq_ok outcome
  cases result with
  | none => cases outcome
  | some found =>
    cases outcome
    obtain ⟨code, lowers, isScalar, computes⟩ := follows before after _ scalar loaded
    refine ⟨code, lowers, isScalar _ rfl, ?_⟩
    intro starts _
    have whole : Computes meaning texts before.binding? (fun _ => True) (code ++ [])
        (Evaluation.required evaluation) (Holds meaning texts operand) := by
      apply (computes starts).bind
      intro value world state matched related
      cases related with
      | some holds => exact .some ⟨matched, holds⟩
    rwa [List.append_nil] at whole

theorem Fragment.Follows.of_load {evaluation : Evaluation R (Scalar R)}
    (yields : ∀ before after result, ScalarBench module file before →
      fragment.load before = .ok result after → ∃ operand, result = some operand ∧
        Yields module file meaning texts before after (fun (_ : Unit) _ => True)
          (fun _ => evaluation) operand) :
    fragment.Follows module file meaning texts (some <$> evaluation) := by
  intro before after result scalar outcome
  obtain ⟨operand, rfl, code, lowers, isScalar, computes⟩ :=
    yields before after result scalar outcome
  refine ⟨code, lowers, ?_, ?_⟩
  · intro other same
    cases same
    exact isScalar
  · intro starts
    rw [← bind_pure_comp]
    apply (computes starts ()).map
    intro value state holds
    exact .some holds

theorem Fragment.Follows.ofValue {value : Lower Operand} {evaluation : Evaluation R (Scalar R)}
    (yields : ∀ before after operand, ScalarBench module file before →
      value before = .ok operand after →
      Yields module file meaning texts before after (fun (_ : Unit) _ => True)
        (fun _ => evaluation) operand) :
    (Fragment.ofValue line value).Follows module file meaning texts (some <$> evaluation) := by
  apply of_load
  intro before after result scalar outcome
  change (some <$> value) before = .ok result after at outcome
  rw [← bind_pure_comp] at outcome
  obtain ⟨operand, middle, valued, same⟩ := bind_eq_ok outcome
  cases same
  exact ⟨operand, rfl, yields before after operand scalar valued⟩

theorem constant_follows {value : IR.Value} {type : Ty} {constant : Scalar R}
    (typed : constant.type = type) (plain : value.resultName? = none) (isScalar : IsScalarType type)
    (reads : ∀ state, value.read meaning texts state = some constant.datum) :
    (Fragment.ofValue line (pure ⟨value, type, false⟩)).Follows module file meaning texts
      (pure (some constant)) := by
  change (Fragment.ofValue line _).Follows module file meaning texts (some <$> pure constant)
  apply Fragment.Follows.ofValue
  intro before after operand scalar outcome
  cases outcome
  have below : Below before.frame.draft.temporaries value := by
    intro name isName
    rw [plain] at isName
    cases isName
  refine ⟨[], .refl scalar, ⟨below, isScalar⟩, ?_⟩
  intro _ _
  apply Computes.pure
  intro state _
  exact ⟨reads state, typed⟩

private theorem identifier_follows (name : String) :
    (identifier line name).Follows module file meaning texts (some <$> Evaluation.lookup name) :=
  .of_load fun _ _ _ => identifier_yields

theorem binary_follows {operator : Operator} {left right : Fragment}
    {first second : Evaluation R (Option (Scalar R))}
    (followsLeft : left.Follows module file meaning texts first)
    (followsRight : right.Follows module file meaning texts second) :
    (binary line operator left right).Follows module file meaning texts (do
      let leftValue ← Evaluation.required first
      let rightValue ← Evaluation.required second
      some <$> Source.binaryOperation meaning file line operator leftValue rightValue) := by
  suffices whole : (binary line operator left right).Follows module file meaning texts
      (some <$> do
        Source.binaryOperation meaning file line operator (← Evaluation.required first)
          (← Evaluation.required second)) by
    simpa only [map_bind] using whole
  apply Fragment.Follows.ofValue
  intro before after operand scalar outcome
  obtain ⟨leftOperand, bench₁, leftValued, outcome⟩ := bind_eq_ok outcome
  obtain ⟨rightOperand, bench₂, rightValued, outcome⟩ := bind_eq_ok outcome
  obtain ⟨code₁, lowers₁, isLeft, computes₁⟩ := followsLeft.value scalar leftValued
  obtain ⟨code₂, lowers₂, isRight, computes₂⟩ := followsRight.value lowers₁.scalar rightValued
  obtain ⟨code₃, lowers₃, isScalar, computes₃⟩ := binaryOperation_yields lowers₂.scalar
    (isLeft.mono lowers₂.grows.temporaries) isRight outcome
  refine ⟨_, lowers₁.trans (lowers₂.trans lowers₃ lowers₁.scalar.valid) scalar.valid, isScalar, ?_⟩
  intro starts _
  apply (computes₁ (lowers₂.texts.trans (lowers₃.texts.trans starts)) ()).bind
  intro leftValue
  rw [← lowers₁.binding?]
  have kept := lowers₂.frame (computes₂ (lowers₃.texts.trans starts) ())
    fun state final agree (holds : Holds meaning texts leftOperand leftValue state) =>
      holds.kept isLeft.below agree
  apply (kept.weaken (fun _ holds => ⟨trivial, holds⟩) fun _ _ holds => holds).bind
  intro rightValue
  rw [← lowers₂.binding?]
  apply (computes₃ starts (leftValue, rightValue)).weaken
  · intro state holds
    exact ⟨holds.2, holds.1⟩
  · intro value state holds
    exact holds

theorem unary_follows {operator : Operator}
    (follows : fragment.Follows module file meaning texts evaluation) :
    (unary line operator fragment).Follows module file meaning texts (do
      let value ← Evaluation.required evaluation
      return some (← Source.unaryOperation meaning operator value)) := by
  suffices whole : (unary line operator fragment).Follows module file meaning texts
      (some <$> do
        let value ← Evaluation.required evaluation
        liftM (Source.unaryOperation meaning operator value)) by
    simpa only [map_bind, bind_pure_comp] using whole
  apply Fragment.Follows.ofValue
  intro before after operand scalar outcome
  obtain ⟨source, bench, valued, outcome⟩ := bind_eq_ok outcome
  obtain ⟨code, lowers, isSource, computes⟩ := follows.value scalar valued
  obtain ⟨later, lowersLater, isScalar, computesLater⟩ :=
    unaryOperation_yields lowers.scalar isSource.typed outcome
  refine ⟨_, lowers.trans lowersLater scalar.valid, isScalar, ?_⟩
  intro starts _
  apply (computes (lowersLater.texts.trans starts) ()).bind
  intro value
  rw [← lowers.binding?]
  exact computesLater starts value

theorem assignment_follows {name : String} {place : Nat}
    (follows : fragment.Follows module file meaning texts evaluation) :
    (assignment line (identifier place name) fragment).Follows module file meaning texts (do
      let assigned ← Evaluation.required evaluation
      Evaluation.assign name assigned
      return some assigned) := by
  suffices whole : (assignment line (identifier place name) fragment).Follows module file meaning
      texts (some <$> do
        let assigned ← Evaluation.required evaluation
        Evaluation.assign name assigned
        return assigned) by
    simpa only [map_bind, map_pure] using whole
  apply Fragment.Follows.ofValue
  intro before after operand scalar outcome
  obtain ⟨target, _, placed, outcome⟩ := bind_eq_ok outcome
  obtain ⟨found, _, bound, same⟩ := bind_eq_ok placed
  obtain ⟨isBound, rfl⟩ := binding_eq_ok bound
  cases same
  obtain ⟨source, bench, valued, outcome⟩ := bind_eq_ok outcome
  obtain ⟨code, lowers, isSource, computes⟩ := follows.value scalar valued
  obtain ⟨_, typed⟩ := scalar.slots name found isBound
  have assigned : assignPrimitive line ⟨found.address, found.type, false⟩ source bench =
      .ok operand after := by
    obtain ⟨address, type⟩ := found
    rcases typed with rfl | rfl
    · exact outcome
    · exact outcome
  have isBoundLater : bench.binding? name = some found := by
    rw [lowers.binding?]
    exact isBound
  obtain ⟨later, lowersLater, isScalar, computesLater⟩ :=
    assignPrimitive_yields lowers.scalar isBoundLater isSource assigned
  refine ⟨_, lowers.trans lowersLater scalar.valid, isScalar, ?_⟩
  intro starts _
  apply (computes (lowersLater.texts.trans starts) ()).bind
  intro value
  rw [← lowers.binding?]
  exact computesLater starts value

/-! ## Printing -/

/-- What is passed to the print routine announces values and shows them. -/
def Shows (meaning : Interpretation R) (texts : List String) (printed : String × List IR.Value)
    (values : List (Scalar R)) (state : State R) : Prop :=
  Source.letters values = printed.1 ∧
    printed.2.mapM (IR.Value.read meaning texts state) = some (values.map Scalar.printed)

/-- Printed arguments have straight code that does what an evaluation does. -/
def Prints (module file : String) (meaning : Interpretation R) (texts : List String)
    (arguments : List Fragment) (evaluation : Evaluation R (List (Scalar R))) : Prop :=
  ∀ before after printed, ScalarBench module file before →
    printedArguments arguments before = .ok printed after →
    ∃ code, Lowers module file before code after ∧
      (∀ value ∈ printed.2, Below after.frame.draft.temporaries value) ∧
      (after.frame.draft.texts <+: texts → Computes meaning texts before.binding? (fun _ => True)
        code evaluation (Shows meaning texts printed))

theorem printedOperand_computes {operand : Operand} {printed : String × List IR.Value}
    (scalar : ScalarBench module file before)
    (isScalar : IsScalar before.frame.draft.temporaries operand)
    (outcome : Lower.emit (printedOperand operand) before = .ok printed after) :
    ∃ code, Lowers module file before code after ∧
      (∀ value ∈ printed.2, Below after.frame.draft.temporaries value) ∧
      ∀ value, Computes meaning texts before.binding? (Holds meaning texts operand value) code
        (pure value) fun shown state => shown = value ∧ Shows meaning texts printed [value]
          state := by
  obtain ⟨source, type, _⟩ := operand
  rcases isScalar.typed with rfl | rfl
  · change Lower.emit (do return ("b", [← Emit.compute (.convert .zext source .i32)])) before = _
      at outcome
    obtain ⟨result, middle, computed, same⟩ := emit_bind_eq_ok outcome
    cases same
    obtain ⟨rfl, larger, lowers⟩ := scalar.compute computed
    refine ⟨_, lowers, ?_, ?_⟩
    · intro value member
      obtain rfl := List.mem_singleton.mp member
      change Below middle.frame.draft.temporaries _
      rw [larger]
      exact below_result _ _
    · intro value world state matched given
      obtain ⟨truth, rfl, reads⟩ := given.truth
      have executes : (IR.Operation.convert .zext source .i32).execute meaning texts state =
          some (some (Scalar.truth truth : Scalar R).printed, state) := by
        simp [IR.Operation.execute, reads, IR.Conversion.apply, Scalar.printed]
      rw [IR.executeAll_singleton, IR.Instruction.execute, executes]
      refine .some ⟨matched.kept scalar.belows (Computes.agree_define state _) rfl rfl, rfl, rfl,
        ?_⟩
      simp
  · cases outcome
    refine ⟨[], .refl scalar, ?_, ?_⟩
    · intro value member
      obtain rfl := List.mem_singleton.mp member
      exact isScalar.below
    · intro value
      apply Computes.pure
      intro state given
      obtain ⟨number, rfl, reads⟩ := given.real
      refine ⟨rfl, rfl, ?_⟩
      simp [reads, Scalar.printed]

theorem Prints.nil : Prints module file meaning texts [] (pure []) := by
  intro before after printed scalar outcome
  cases outcome
  refine ⟨[], .refl scalar, ?_, ?_⟩
  · intro value member
    cases member
  · intro _
    apply Computes.pure
    intro state _
    exact ⟨rfl, rfl⟩

private theorem mapM_read_kept {operands : List IR.Value} {final : State R}
    (below : ∀ operand ∈ operands, Below bound operand) (agree : Agree bound state final) :
    operands.mapM (IR.Value.read meaning texts final) =
      operands.mapM (IR.Value.read meaning texts state) := by
  induction operands with
  | nil => rfl
  | cons operand rest ih =>
    rw [List.mapM_cons, List.mapM_cons, (below operand List.mem_cons_self).read agree,
      ih fun other member => below other (List.mem_cons_of_mem _ member)]

theorem Shows.kept {printed : String × List IR.Value} {values : List (Scalar R)} {final : State R}
    (shows : Shows meaning texts printed values state)
    (below : ∀ operand ∈ printed.2, Below bound operand) (agree : Agree bound state final) :
    Shows meaning texts printed values final := by
  refine ⟨shows.1, ?_⟩
  rw [mapM_read_kept below agree]
  exact shows.2

theorem Shows.cons {first rest : String × List IR.Value} {value : Scalar R}
    {values : List (Scalar R)} (head : Shows meaning texts first [value] state)
    (tail : Shows meaning texts rest values state) :
    Shows meaning texts (first.1 ++ rest.1, first.2 ++ rest.2) (value :: values) state := by
  constructor
  · rw [← head.1, ← tail.1]
    simp [Source.letters]
  · rw [List.mapM_append, head.2, tail.2]
    rfl

theorem Prints.cons {argument : Fragment} {rest : List Fragment}
    {later : Evaluation R (List (Scalar R))}
    (follows : argument.Follows module file meaning texts evaluation)
    (prints : Prints module file meaning texts rest later) :
    Prints module file meaning texts (argument :: rest) (do
      let value ← Evaluation.required evaluation
      return value :: (← later)) := by
  intro before after printed scalar outcome
  obtain ⟨source, bench₁, valued, outcome⟩ := bind_eq_ok outcome
  obtain ⟨code₁, lowers₁, isSource, computes₁⟩ := follows.value scalar valued
  rw [widen_eq isSource.typed, pure_bind] at outcome
  obtain ⟨first, bench₂, shown, outcome⟩ := bind_eq_ok outcome
  obtain ⟨second, bench₃, printedRest, same⟩ := bind_eq_ok outcome
  cases same
  obtain ⟨code₂, lowers₂, belowFirst, computes₂⟩ :=
    printedOperand_computes lowers₁.scalar isSource shown
  obtain ⟨code₃, lowers₃, belowSecond, computes₃⟩ := prints _ _ _ lowers₂.scalar printedRest
  have lowers₁₂ := lowers₁.trans lowers₂ scalar.valid
  refine ⟨_, lowers₁₂.trans lowers₃ scalar.valid, ?_, ?_⟩
  · intro value member
    rcases List.mem_append.mp member with here | later
    · exact (belowFirst value here).mono lowers₃.grows.temporaries
    · exact belowSecond value later
  · intro starts
    have head : Computes meaning texts before.binding? (fun _ => True) (code₁ ++ code₂)
        (Evaluation.required evaluation) fun value => Shows meaning texts first [value] := by
      rw [← bind_pure (Evaluation.required evaluation)]
      apply (computes₁ (lowers₂.texts.trans (lowers₃.texts.trans starts)) ()).bind
      intro value
      rw [← lowers₁.binding?]
      apply (computes₂ value).weaken fun _ holds => holds
      intro other state holds
      rw [holds.1]
      exact holds.2
    apply head.bind
    intro value
    rw [← lowers₁₂.binding?]
    have framed := lowers₃.frame (computes₃ starts)
      fun state final agree (shows : Shows meaning texts first [value] state) =>
        shows.kept belowFirst agree
    apply (framed.weaken (fun _ shows => ⟨trivial, shows⟩) fun _ _ holds => holds).map
    intro values state holds
    exact holds.2.cons holds.1

/-- The print routine is called with what announces the values and shows them. -/
theorem printCall_computes {function : Signature} {arguments : List Fragment}
    {evaluation : Evaluation R (List (Scalar R))} (named : function.name = "_kio_afficher")
    (prints : Prints module file meaning texts arguments evaluation)
    (scalar : ScalarBench module file before)
    (outcome : printCall function arguments before = .ok () after) :
    ∃ code, Lowers module file before code after ∧
      (after.frame.draft.texts <+: texts → Computes meaning texts before.binding? (fun _ => True)
        code (do
          let values ← evaluation
          let _ ← Evaluation.call meaning "_kio_afficher"
            (.text (Source.letters values) :: values.map Scalar.printed)
          return (none : Option (Scalar R))) fun value _ => value = none) := by
  obtain ⟨printed, bench₁, shown, outcome⟩ := bind_eq_ok outcome
  let routine : IR.Function :=
    { name := function.name
      result := .void
      parameters := [("fmt", IR.Ty.bytes)]
      variadic := true }
  change Lower.emit (do
    let format ← Emit.constantText printed.1
    let callee ← (do Emit.callee (← Emit.declare routine))
    Emit.perform (.call callee (format :: printed.2))) bench₁ = .ok () after at outcome
  obtain ⟨format, bench₂, formatted, outcome⟩ := emit_bind_eq_ok outcome
  obtain ⟨callee, bench₃, declared, performed⟩ := emit_bind_eq_ok outcome
  obtain ⟨code, lowers₁, below, computes⟩ := prints _ _ _ scalar shown
  obtain ⟨lowers₂, position, length, rfl, isText⟩ := lowers₁.scalar.constantText formatted
  have isRoutine : routineResult? routine.name = some routine.result := by
    change routineResult? function.name = _
    rw [named]
    rfl
  obtain ⟨isNamed, isVoid, lowers₃⟩ := lowers₂.scalar.declare rfl isRoutine declared
  have lowers₄ := lowers₃.scalar.perform performed
  refine ⟨_, lowers₁.trans (lowers₂.trans (lowers₃.trans lowers₄ lowers₂.scalar.valid)
    lowers₁.scalar.valid) scalar.valid, ?_⟩
  intro starts
  have found := getElem?_of_prefix (lowers₃.texts.trans (lowers₄.texts.trans starts)) isText
  apply (computes (lowers₂.texts.trans (lowers₃.texts.trans (lowers₄.texts.trans starts)))).bind
  intro values
  have calleeNamed : callee.name = "_kio_afficher" := isNamed.trans named
  rw [← calleeNamed]
  apply (Computes.callVoid isVoid ?_).map
  · intro _ _ _
    rfl
  · intro state shows
    rw [List.mapM_cons, IR.read_text length state found, shows.2, shows.1]
    rfl

/-- A module of source text without functions calls the print routine as its own. -/
theorem function?_print {registry : Registry} {view : Viewpoint} {function : Signature}
    (functions : ∀ name, view.module.functions.get? name = none)
    (source : view.module.runtime = none)
    (found : registry.function? view (Name.ofFunction view.module.id Catalogue.printSymbol) =
      .ok (some function)) : Catalogue.function? "io" Catalogue.printSymbol = some function := by
  unfold Registry.function? at found
  obtain ⟨parts, split, -⟩ | ⟨_, _, cut⟩ | ⟨_, none⟩ :=
    Registry.parts?_cases (Name.ofFunction view.module.id Catalogue.printSymbol)
  · obtain ⟨isModule, isSymbol⟩ := Name.demangle_ofFunction (by decide) (by decide) split
    rw [Registry.owner?_of_split split, Registry.seen?, if_pos isModule] at found
    simp only [Except.map, Option.map_some, bind, Except.bind, source] at found
    split at found
    · cases found
    · rw [functions, isSymbol] at found
      cases found
      rfl
  · rw [Registry.owner?, cut] at found
    cases found
  · rw [Registry.owner?, none] at found
    cases found

theorem call_follows {arguments : List Fragment} {evaluation : Evaluation R (List (Scalar R))}
    (prints : Prints module file meaning texts arguments evaluation) :
    (call line (Name.ofFunction module Catalogue.printSymbol) arguments).Follows module file meaning
      texts (do
        let values ← evaluation
        let _ ← Evaluation.call meaning "_kio_afficher"
          (.text (Source.letters values) :: values.map Scalar.printed)
        return none) := by
  intro before after result scalar outcome
  rw [call] at outcome
  obtain ⟨registry, _, ⟨⟩, outcome⟩ := bind_eq_ok outcome
  obtain ⟨viewpoint, _, ⟨⟩, outcome⟩ := bind_eq_ok outcome
  obtain ⟨answer, _, asked, outcome⟩ := bind_eq_ok outcome
  obtain ⟨found, rfl⟩ := Lower.ask_eq_ok asked
  cases answer with
  | none => cases outcome
  | some function =>
    rw [← scalar.id] at found
    have isPrint := function?_print scalar.functions scalar.source found
    cases isPrint
    obtain ⟨_, middle, printed, same⟩ := bind_eq_ok outcome
    cases same
    obtain ⟨code, lowers, computes⟩ := printCall_computes rfl prints scalar printed
    refine ⟨code, lowers, ?_, ?_⟩
    · intro operand same
      cases same
    · intro starts
      apply (computes starts).weaken fun _ holds => holds
      intro value state isNone
      rw [isNone]
      exact .none

mutual

/-- The code of a scalar expression does what the evaluator does. -/
theorem lower_follows {expression : Source.Expr} (isScalar : expression.isScalar module = true) :
    (lower expression).Follows module file meaning texts (expression.evaluate meaning file) := by
  cases expression with
  | boolean line value =>
    rw [Source.Expr.evaluate]
    exact constant_follows rfl rfl (.inl rfl) fun _ => rfl
  | number line value =>
    rw [Source.Expr.evaluate]
    exact constant_follows rfl rfl (.inr rfl) fun _ => rfl
  | identifier line name =>
    rw [Source.Expr.evaluate]
    exact identifier_follows name
  | binary line operator left right =>
    rw [Source.Expr.isScalar, Bool.and_eq_true] at isScalar
    rw [Source.Expr.evaluate]
    exact binary_follows (lower_follows isScalar.1) (lower_follows isScalar.2)
  | unary line operator operand =>
    rw [Source.Expr.isScalar] at isScalar
    rw [Source.Expr.evaluate]
    exact unary_follows (lower_follows isScalar)
  | assignment line target value =>
    cases target with
    | identifier place name =>
      rw [Source.Expr.isScalar] at isScalar
      rw [Source.Expr.evaluate]
      exact assignment_follows (lower_follows isScalar)
    | _ => cases isScalar
  | call line callee arguments =>
    rw [Source.Expr.isScalar, Bool.and_eq_true, beq_iff_eq] at isScalar
    rw [Source.Expr.evaluate, isScalar.1]
    exact call_follows (lowerAll_prints isScalar.2)
  | _ => cases isScalar

theorem lowerAll_prints {arguments : List Source.Expr}
    (areScalar : Source.areScalar module arguments = true) :
    Prints module file meaning texts (lowerAll arguments)
      (Source.evaluateAll meaning file arguments) := by
  cases arguments with
  | nil =>
    rw [Source.evaluateAll]
    exact .nil
  | cons first rest =>
    rw [Source.areScalar, Bool.and_eq_true] at areScalar
    rw [Source.evaluateAll]
    exact .cons (lower_follows areScalar.1) (lowerAll_prints areScalar.2)

end

end Fragments

end Expressions

end Kronk.Lowering
