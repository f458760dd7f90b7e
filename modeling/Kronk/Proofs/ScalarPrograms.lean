import Kronk.Proofs.Dominance
import Kronk.Proofs.ScalarExpressions

/-!
# The code of scalar programs

The main statement is `Compile.file_returns_iff`: where a file of scalar statements compiles, its
program gets from `ProgramEntry` to `ProgramExit` exactly if the evaluator comes to an end, and then
both have made the same calls and left the same values in the variables.
-/

namespace Kronk.Lowering

open IR (State executeAll Code Block)
open Source (Scalar World Evaluation Terminates Lasting)

section Programs

variable {R : Type} {meaning : Interpretation R} {texts : List String}

/-! ## Structured code and runs -/

/-- Structured code does what a run does: it gets to its end if the run does, and only then.  The
names stand for slots before and after it. -/
structure Simulates (meaning : Interpretation R) (texts : List String)
    (bindings newer : String → Option Binding) (code : Code) (run : Nat → Evaluation R Unit) :
    Prop where
  forth : ∀ world state outcome, Matches meaning texts bindings world state →
    Terminates run world outcome →
    ∃ final, code.Executes meaning texts state final ∧ Matches meaning texts newer outcome final
  back : ∀ world state final, Matches meaning texts bindings world state →
    code.Executes meaning texts state final →
    ∃ outcome, Terminates run world outcome ∧ Matches meaning texts newer outcome final

theorem rel_forth {α β : Type} {relation : α → β → Prop} {first : Option α} {second : Option β}
    {value : α} (related : Option.Rel relation first second) (found : first = some value) :
    ∃ datum, second = some datum ∧ relation value datum := by
  cases related with
  | some holds =>
    cases found
    exact ⟨_, rfl, holds⟩
  | none => cases found

theorem rel_back {α β : Type} {relation : α → β → Prop} {first : Option α} {second : Option β}
    {datum : β} (related : Option.Rel relation first second) (found : second = some datum) :
    ∃ value, first = some value ∧ relation value datum := by
  cases related with
  | some holds =>
    cases found
    exact ⟨_, rfl, holds⟩
  | none => cases found

namespace Simulates

variable {bindings middle newer : String → Option Binding}

theorem straight {code : List IR.Instruction} {evaluation : Evaluation R Unit}
    (related : ∀ world state, Matches meaning texts bindings world state →
      Option.Rel (fun outcome final => Matches meaning texts newer outcome.2 final)
        (evaluation world) (executeAll meaning texts code state)) :
    Simulates meaning texts bindings newer (.straight code) fun _ => evaluation where
  forth world state outcome matched terminates := by
    obtain ⟨_, evaluated⟩ := terminates
    obtain ⟨final, executed, matchedAfter⟩ := rel_forth (related world state matched) evaluated
    exact ⟨final, executed, matchedAfter⟩
  back world state final matched executed := by
    obtain ⟨⟨⟨⟩, outcome⟩, evaluated, matchedAfter⟩ :=
      rel_back (related world state matched) executed
    exact ⟨outcome, ⟨0, evaluated⟩, matchedAfter⟩

theorem of_computes {code : List IR.Instruction} {evaluation : Evaluation R Unit}
    (computes : Computes meaning texts bindings (fun _ => True) code evaluation fun _ _ => True) :
    Simulates meaning texts bindings bindings (.straight code) fun _ => evaluation := by
  apply straight
  intro world state matched
  exact rel_mono (computes world state matched trivial) fun _ _ _ holds => holds.1

theorem seq {first second : Code} {run later : Nat → Evaluation R Unit}
    (former : Simulates meaning texts bindings middle first run)
    (latter : Simulates meaning texts middle newer second later)
    (lasting : Lasting run) (lastingLater : Lasting later) :
    Simulates meaning texts bindings newer (.seq first second)
      fun rounds => run rounds >>= fun _ => later rounds where
  forth world state outcome matched terminates := by
    obtain ⟨between, begun, ended⟩ :=
      (Source.terminates_seq_iff lasting lastingLater).mp terminates
    obtain ⟨reached, executed, matchedBetween⟩ := former.forth world state between matched begun
    obtain ⟨final, executedRest, matchedAfter⟩ :=
      latter.forth between reached outcome matchedBetween ended
    exact ⟨final, ⟨reached, executed, executedRest⟩, matchedAfter⟩
  back world state final matched executed := by
    obtain ⟨reached, executed, executedRest⟩ := executed
    obtain ⟨between, begun, matchedBetween⟩ := former.back world state reached matched executed
    obtain ⟨outcome, ended, matchedAfter⟩ :=
      latter.back between reached final matchedBetween executedRest
    exact ⟨outcome, (Source.terminates_seq_iff lasting lastingLater).mpr ⟨between, begun, ended⟩,
      matchedAfter⟩


section Conditions

variable {test : List IR.Instruction} {condition : Evaluation R Bool} {holds : IR.Value}
  (tests : Computes meaning texts bindings (fun _ => True) test condition fun truth state =>
    holds.truth? meaning texts state = some truth)

include tests in
theorem conditional {code other : Code} {run alternative : Nat → Evaluation R Unit}
    (first : Simulates meaning texts bindings bindings code run)
    (second : Simulates meaning texts bindings bindings other alternative) :
    Simulates meaning texts bindings bindings (.seq (.straight test) (.branch holds code other))
      fun rounds => condition >>= fun truth =>
        if truth then run rounds else alternative rounds where
  forth world state outcome matched terminates := by
    obtain ⟨truth, tested, evaluated, terminates⟩ := Source.terminates_bind_iff.mp terminates
    obtain ⟨reached, executed, matchedTested, isTruth⟩ :=
      rel_forth (tests world state matched trivial) evaluated
    cases truth with
    | true =>
      obtain ⟨final, executedBody, matchedAfter⟩ :=
        first.forth tested reached outcome matchedTested terminates
      exact ⟨final, ⟨reached, executed, true, isTruth, executedBody⟩, matchedAfter⟩
    | false =>
      obtain ⟨final, executedBody, matchedAfter⟩ :=
        second.forth tested reached outcome matchedTested terminates
      exact ⟨final, ⟨reached, executed, false, isTruth, executedBody⟩, matchedAfter⟩
  back world state final matched executed := by
    obtain ⟨reached, executed, chosen, isChosen, executedBody⟩ := executed
    obtain ⟨⟨truth, tested⟩, evaluated, matchedTested, isTruth⟩ :=
      rel_back (tests world state matched trivial) executed
    rw [isTruth, Option.some.injEq] at isChosen
    subst isChosen
    cases truth with
    | true =>
      obtain ⟨outcome, terminates, matchedAfter⟩ :=
        first.back tested reached final matchedTested executedBody
      exact ⟨outcome, Source.terminates_bind_iff.mpr ⟨true, tested, evaluated, terminates⟩,
        matchedAfter⟩
    | false =>
      obtain ⟨outcome, terminates, matchedAfter⟩ :=
        second.back tested reached final matchedTested executedBody
      exact ⟨outcome, Source.terminates_bind_iff.mpr ⟨false, tested, evaluated, terminates⟩,
        matchedAfter⟩

include tests in
theorem loop {code : Code} {run : Nat → Evaluation R Unit}
    (body : Simulates meaning texts bindings bindings code run) (lasting : Lasting run) :
    Simulates meaning texts bindings bindings (.loop test holds code)
      fun rounds => Evaluation.repeatWhile condition (run rounds) rounds where
  forth world state outcome matched terminates := by
    have goes := (Source.terminates_repeatWhile_iff lasting).mp terminates
    induction goes generalizing state with
    | finish evaluated =>
      obtain ⟨final, executed, matchedAfter, isTruth⟩ :=
        rel_forth (tests _ state matched trivial) evaluated
      refine ⟨final, .finish ?_, matchedAfter⟩
      simp [IR.testState, executed, isTruth]
    | again evaluated ran _ ih =>
      obtain ⟨reached, executed, matchedTested, isTruth⟩ :=
        rel_forth (tests _ state matched trivial) evaluated
      obtain ⟨between, executedBody, matchedBetween⟩ :=
        body.forth _ reached _ matchedTested ran
      obtain ⟨final, executedRest, matchedAfter⟩ := ih between matchedBetween
        ((Source.terminates_repeatWhile_iff lasting).mpr (by assumption))
      refine ⟨final, .again ?_ executedBody executedRest, matchedAfter⟩
      simp [IR.testState, executed, isTruth]
  back world state final matched executed := by
    change Rounds _ _ state final at executed
    have passes : ∀ start tested truth, IR.testState meaning texts test holds start =
        some (truth, tested) → executeAll meaning texts test start = some tested ∧
          holds.truth? meaning texts tested = some truth := by
      intro start tested truth same
      obtain ⟨reached, executed, same⟩ := Option.bind_eq_some_iff.mp same
      obtain ⟨chosen, isChosen, same⟩ := Option.bind_eq_some_iff.mp same
      cases same
      exact ⟨executed, isChosen⟩
    suffices goes : ∃ outcome, Rounds condition (Terminates run) world outcome ∧
        Matches meaning texts bindings outcome final by
      obtain ⟨outcome, goes, matchedAfter⟩ := goes
      exact ⟨outcome, (Source.terminates_repeatWhile_iff lasting).mpr goes, matchedAfter⟩
    induction executed generalizing world with
    | finish same =>
      obtain ⟨executed, isChosen⟩ := passes _ _ _ same
      obtain ⟨⟨truth, tested⟩, evaluated, matchedTested, isTruth⟩ :=
        rel_back (tests world _ matched trivial) executed
      rw [isTruth, Option.some.injEq] at isChosen
      dsimp only at isChosen
      subst isChosen
      exact ⟨tested, .finish evaluated, matchedTested⟩
    | again same ran _ ih =>
      obtain ⟨executed, isChosen⟩ := passes _ _ _ same
      obtain ⟨⟨truth, tested⟩, evaluated, matchedTested, isTruth⟩ :=
        rel_back (tests world _ matched trivial) executed
      rw [isTruth, Option.some.injEq] at isChosen
      dsimp only at isChosen
      subst isChosen
      obtain ⟨between, terminates, matchedBetween⟩ := body.back tested _ _ matchedTested ran
      obtain ⟨outcome, goes, matchedAfter⟩ := ih between matchedBetween
      exact ⟨outcome, .again evaluated terminates goes, matchedAfter⟩

end Conditions

end Simulates

/-! ## Control -/

section Benches

variable {module file exit : String} {before after : Workbench}

/-- Control is sent elsewhere on a bench of a scalar program. -/
theorem ScalarBench.control {α : Type} {emission : Emit α} {value : α}
    (scalar : ScalarBench module file before) (stays : Local emission)
    (valid : after.frame.draft.Valid) (outcome : Lower.emit emission before = .ok value after) :
    ScalarBench module file after ∧ after.binding? = before.binding? ∧
      after.frame.draft.texts = before.frame.draft.texts := by
  obtain ⟨_, rfl⟩ := emit_ok outcome
  have stays := stays before.frame.draft
  refine ⟨⟨scalar.id, scalar.functions, scalar.source, ?_, valid,
    scalar.declares.of_heads stays.heads, ?_, scalar.scopes⟩, rfl, stays.texts⟩
  · obtain ⟨position, length, isText, found⟩ := scalar.named
    refine ⟨position, length, isText, ?_⟩
    change (emission before.frame.draft).2.texts[position]? = _
    rw [stays.texts]
    exact found
  · intro name binding isBound
    change Below (emission before.frame.draft).2.temporaries _ ∧ _
    rw [stays.temporaries]
    exact scalar.slots name binding isBound

/-- Lowering went from one bench of a scalar program to another by structured code. -/
structure Moves (module file exit : String) (before : Workbench) (code : Code)
    (after : Workbench) : Prop where
  builds : Builds exit before.frame.draft code after.frame.draft
  stays : code.stays = true
  texts : before.frame.draft.texts <+: after.frame.draft.texts
  scalar : ScalarBench module file after

/-- Lowering went from one bench to another by structured code that does what a run does. -/
def Carried (module file exit : String) (meaning : Interpretation R) (texts : List String)
    (before after : Workbench) (run : Nat → Evaluation R Unit) : Prop :=
  ∃ code, Moves module file exit before code after ∧
    (after.frame.draft.texts <+: texts →
      Simulates meaning texts before.binding? after.binding? code run)

/-- Lowering declares no names, and its code does what a run does. -/
def Mirrors (module file exit : String) (meaning : Interpretation R) (texts : List String)
    (lowering : Lower Unit) (run : Nat → Evaluation R Unit) : Prop :=
  ∀ before after, ScalarBench module file before → Ready exit before.frame.draft →
    lowering before = .ok () after →
    after.binding? = before.binding? ∧ Carried module file exit meaning texts before after run

theorem Moves.ready {code : Code} (moves : Moves module file exit before code after) :
    Ready exit after.frame.draft :=
  moves.builds.ready (IR.Code.leaves_of_stays moves.stays)

theorem Carried.ends {run : Nat → Evaluation R Unit}
    (carried : Carried module file exit meaning texts before after run) :
    Ready exit after.frame.draft ∧ ScalarBench module file after := by
  obtain ⟨_, moves, _⟩ := carried
  exact ⟨moves.ready, moves.scalar⟩

theorem Lowers.moves {code : List IR.Instruction} (lowers : Lowers module file before code after)
    (ready : Ready exit before.frame.draft) :
    Moves module file exit before (.straight code) after :=
  ⟨lowers.grows.builds ready, rfl, lowers.texts, lowers.scalar⟩

theorem Carried.seq {middle : Workbench} {run later : Nat → Evaluation R Unit}
    (former : Carried module file exit meaning texts before middle run)
    (latter : Carried module file exit meaning texts middle after later)
    (lasting : Lasting run) (lastingLater : Lasting later) :
    Carried module file exit meaning texts before after
      fun rounds => run rounds >>= fun _ => later rounds := by
  obtain ⟨code, moves, simulates⟩ := former
  obtain ⟨other, movesOn, simulatesOn⟩ := latter
  refine ⟨.seq code other, ⟨moves.builds.seq movesOn.builds, ?_, moves.texts.trans movesOn.texts,
    movesOn.scalar⟩, ?_⟩
  · rw [Code.stays, moves.stays, movesOn.stays]
    rfl
  · intro starts
    exact (simulates (movesOn.texts.trans starts)).seq (simulatesOn starts) lasting lastingLater

theorem conditionValue_computes {condition : Fragment} {holds : IR.Value}
    {evaluation : Evaluation R (Option (Scalar R))}
    (follows : condition.Follows module file meaning texts evaluation)
    (scalar : ScalarBench module file before)
    (outcome : conditionValue condition before = .ok holds after) :
    ∃ code, Lowers module file before code after ∧
      (after.frame.draft.texts <+: texts → Computes meaning texts before.binding? (fun _ => True)
        code (Evaluation.condition evaluation) fun truth state =>
          holds.truth? meaning texts state = some truth) := by
  obtain ⟨operand, middle, valued, outcome⟩ := bind_eq_ok outcome
  obtain ⟨value, type, inPlace⟩ := operand
  obtain ⟨result, _, loaded, isValue⟩ := bind_eq_ok valued
  obtain ⟨code, lowers, isScalar, computes⟩ := follows before _ result scalar loaded
  cases result with
  | none => cases isValue
  | some found =>
  cases isValue
  rcases (isScalar _ rfl).typed with isBool | isReal
  · dsimp only at isBool
    subst isBool
    cases outcome
    refine ⟨code, lowers, ?_⟩
    intro starts
    have whole : Computes meaning texts before.binding? (fun _ => True) (code ++ [])
        (Evaluation.condition evaluation) fun truth state =>
          value.truth? meaning texts state = some truth := by
      apply (computes starts).bind
      intro scalar world state matched related
      cases related with
      | some holds =>
        obtain ⟨truth, rfl, reads⟩ := holds.truth
        refine .some ⟨matched, ?_⟩
        simp [IR.Value.truth?, reads]
    rwa [List.append_nil] at whole
  · dsimp only at isReal
    subst isReal
    cases outcome

namespace Mirrors

theorem pure : Mirrors module file exit meaning texts (Pure.pure ()) fun _ => Pure.pure () := by
  intro before after scalar ready outcome
  cases outcome
  refine ⟨rfl, .straight [], (Lowers.refl scalar).moves ready, ?_⟩
  intro _
  exact .of_computes (.pure fun _ _ => trivial)

variable {run : Nat → Evaluation R Unit} {evaluation : Evaluation R (Option (Scalar R))}

theorem seq {first second : Lower Unit} {later : Nat → Evaluation R Unit}
    (former : Mirrors module file exit meaning texts first run)
    (latter : Mirrors module file exit meaning texts second later) (lasting : Lasting run)
    (lastingLater : Lasting later) :
    Mirrors module file exit meaning texts (first >>= fun _ => second)
      fun rounds => run rounds >>= fun _ => later rounds := by
  intro before after scalar ready outcome
  obtain ⟨⟨⟩, middle, outcome, outcomeLater⟩ := bind_eq_ok outcome
  obtain ⟨same, carried⟩ := former before middle scalar ready outcome
  have ⟨code, moves, _⟩ := carried
  obtain ⟨sameLater, carriedLater⟩ := latter middle after moves.scalar moves.ready outcomeLater
  exact ⟨sameLater.trans same, carried.seq carriedLater lasting lastingLater⟩

theorem expression {fragment : Fragment}
    (follows : fragment.Follows module file meaning texts evaluation) :
    Mirrors module file exit meaning texts (do let _ ← fragment.load)
      (fun _ => do let _ ← evaluation) := by
  intro before after scalar ready outcome
  obtain ⟨result, middle, loaded, same⟩ := bind_eq_ok outcome
  cases same
  obtain ⟨code, lowers, _, computes⟩ := follows before after result scalar loaded
  refine ⟨lowers.binding?, .straight code, lowers.moves ready, ?_⟩
  intro starts
  rw [lowers.binding?]
  apply Simulates.of_computes
  apply (computes starts).map
  intro _ _ _
  trivial

theorem conditional {condition : Fragment} {consequent alternative : Lower Unit}
    {other : Nat → Evaluation R Unit}
    (follows : condition.Follows module file meaning texts evaluation)
    (mirrorsFirst : Mirrors module file exit meaning texts consequent run)
    (mirrorsSecond : Mirrors module file exit meaning texts alternative other) :
    Mirrors module file exit meaning texts (Lowering.conditional condition consequent alternative)
      fun rounds => Evaluation.condition evaluation >>= fun truth =>
        if truth then run rounds else other rounds := by
  intro before after scalar ready outcome
  obtain ⟨holds, tested, outcomeTest, outcome⟩ := bind_eq_ok outcome
  obtain ⟨arms, entered, opens, outcome⟩ := bind_eq_ok outcome
  obtain ⟨⟨⟩, middle, outcomeFirst, outcome⟩ := bind_eq_ok outcome
  obtain ⟨⟨⟩, turned, turns, outcome⟩ := bind_eq_ok outcome
  obtain ⟨⟨⟩, last, outcomeSecond, closes⟩ := bind_eq_ok outcome
  -- The test.
  obtain ⟨test, lowers, computes⟩ := conditionValue_computes follows scalar outcomeTest
  have movesTest := lowers.moves ready
  obtain ⟨thenLabel, elseLabel, restLabel, added, opened, equation⟩ :=
    openArms_spec movesTest.ready holds
  have same := emit_eq_ok opens
  rw [equation, Prod.mk.injEq] at same
  obtain ⟨rfl, draft⟩ := same
  -- The first body.
  have readyFirst : Ready exit entered.frame.draft := by
    rw [← draft]
    exact opened.ready _
  obtain ⟨scalarIn, sameIn, textsIn⟩ :=
    lowers.scalar.control (.openArms holds) readyFirst.labelled.valid opens
  obtain ⟨sameFirst, code, movesFirst, simulatesFirst⟩ :=
    mirrorsFirst entered middle scalarIn readyFirst outcomeFirst
  have builds := movesFirst.builds
  rw [← draft] at builds
  obtain ⟨sinceMiddle, fresh⟩ := opened.later builds restLabel
  have draftTurned := congrArg Prod.snd (emit_eq_ok turns)
  rw [turnArms_eq] at draftTurned
  dsimp only at draftTurned
  -- The second body.
  have readySecond : Ready exit turned.frame.draft := by
    rw [← draftTurned]
    exact (fresh 0 elseLabel rfl).ready sinceMiddle.labelled
  obtain ⟨scalarOver, sameOver, textsOver⟩ :=
    movesFirst.scalar.control (.turnArms _) readySecond.labelled.valid turns
  obtain ⟨sameSecond, otherCode, movesSecond, simulatesSecond⟩ :=
    mirrorsSecond turned last scalarOver readySecond outcomeSecond
  have buildsOn := movesSecond.builds
  rw [← draftTurned] at buildsOn
  have draftAfter := congrArg Prod.snd (emit_eq_ok closes)
  rw [closeArms_eq] at draftAfter
  dsimp only at draftAfter
  have whole := opened.branch builds buildsOn
  rw [draftAfter] at whole
  obtain ⟨scalarOut, sameOut, textsOut⟩ :=
    movesSecond.scalar.control (.closeArms _) whole.since.labelled.valid closes
  -- All names stand for the same slots as before.
  have isEntered : entered.binding? = before.binding? := sameIn.trans lowers.binding?
  have isMiddle : middle.binding? = before.binding? := sameFirst.trans isEntered
  have isTurned : turned.binding? = before.binding? := sameOver.trans isMiddle
  have isLast : last.binding? = before.binding? := sameSecond.trans isTurned
  have isAfter : after.binding? = before.binding? := sameOut.trans isLast
  have textsSecond : middle.frame.draft.texts <+: after.frame.draft.texts := by
    rw [textsOut, ← textsOver]
    exact movesSecond.texts
  have textsFirst : tested.frame.draft.texts <+: after.frame.draft.texts := by
    rw [← textsIn]
    exact movesFirst.texts.trans textsSecond
  refine ⟨isAfter, .seq (.straight test) (.branch holds code otherCode),
    ⟨movesTest.builds.seq whole, ?_, lowers.texts.trans textsFirst, scalarOut⟩, ?_⟩
  · simp only [Code.stays, movesFirst.stays, movesSecond.stays, Bool.and_self]
  · intro starts
    have first := simulatesFirst (textsSecond.trans starts)
    have second := simulatesSecond (textsOut ▸ starts)
    rw [isMiddle, isEntered] at first
    rw [isLast, isTurned] at second
    rw [isAfter]
    exact .conditional (computes (textsFirst.trans starts)) first second

theorem loop {condition : Fragment} {body : Lower Unit}
    (follows : condition.Follows module file meaning texts evaluation)
    (mirrors : Mirrors module file exit meaning texts body run) (lasting : Lasting run) :
    Mirrors module file exit meaning texts (Lowering.loop condition body) fun rounds =>
        Evaluation.repeatWhile (Evaluation.condition evaluation) (run rounds) rounds := by
  intro before after scalar ready outcome
  obtain ⟨round, entered, opens, outcome⟩ := bind_eq_ok outcome
  obtain ⟨holds, tested, outcomeTest, outcome⟩ := bind_eq_ok outcome
  obtain ⟨⟨⟩, middle, enters, outcome⟩ := bind_eq_ok outcome
  obtain ⟨⟨⟩, last, outcomeBody, closes⟩ := bind_eq_ok outcome
  obtain ⟨testLabel, bodyLabel, restLabel, added, opened, equation⟩ := openLoop_spec ready
  have same := emit_eq_ok opens
  rw [equation, Prod.mk.injEq] at same
  obtain ⟨rfl, draft⟩ := same
  -- The test.
  have readyIn : Ready exit entered.frame.draft := by
    rw [← draft]
    exact opened.ready _
  obtain ⟨scalarIn, sameIn, textsIn⟩ := scalar.control .openLoop readyIn.labelled.valid opens
  obtain ⟨test, lowers, computes⟩ := conditionValue_computes follows scalarIn outcomeTest
  have movesTest := lowers.moves readyIn
  have buildsTest := movesTest.builds
  rw [← draft] at buildsTest
  have draftMiddle := congrArg Prod.snd (emit_eq_ok enters)
  rw [enterLoop_eq] at draftMiddle
  dsimp only at draftMiddle
  -- The body.
  obtain ⟨sinceTested, freshBody, _⟩ := opened.loop_ready holds buildsTest
  have readyMiddle : Ready exit middle.frame.draft := by
    rw [← draftMiddle]
    exact freshBody.ready sinceTested.labelled
  obtain ⟨scalarOver, sameOver, textsOver⟩ :=
    lowers.scalar.control (.enterLoop _ _) readyMiddle.labelled.valid enters
  obtain ⟨sameBody, code, moves, simulates⟩ :=
    mirrors middle last scalarOver readyMiddle outcomeBody
  have builds := moves.builds
  rw [← draftMiddle] at builds
  have draftAfter := congrArg Prod.snd (emit_eq_ok closes)
  rw [closeLoop_eq] at draftAfter
  dsimp only at draftAfter
  have whole := opened.loop buildsTest builds
  rw [draftAfter] at whole
  obtain ⟨scalarOut, sameOut, textsOut⟩ :=
    moves.scalar.control (.closeLoop _) whole.since.labelled.valid closes
  -- All names stand for the same slots as before.
  have isMiddle : middle.binding? = before.binding? :=
    sameOver.trans (lowers.binding?.trans sameIn)
  have isLast : last.binding? = before.binding? := sameBody.trans isMiddle
  have isAfter : after.binding? = before.binding? := sameOut.trans isLast
  have textsRest : tested.frame.draft.texts <+: after.frame.draft.texts := by
    rw [textsOut, ← textsOver]
    exact moves.texts
  refine ⟨isAfter, .loop test holds code, ⟨whole, moves.stays, ?_, scalarOut⟩, ?_⟩
  · rw [← textsIn]
    exact lowers.texts.trans textsRest
  · intro starts
    have tests := computes (textsRest.trans starts)
    have simulation := simulates (textsOut ▸ starts)
    rw [sameIn] at tests
    rw [isLast, isMiddle] at simulation
    rw [isAfter]
    exact .loop tests simulation lasting

section Statements

variable {compileIncluded : Includer}

mutual

/-- The code of a plain statement does what the evaluator does. -/
theorem statement {stmt : Source.Stmt} (isPlain : stmt.isPlain module = true) :
    Mirrors module file exit meaning texts (Lowering.statement compileIncluded stmt)
      fun rounds => stmt.run meaning file rounds := by
  cases stmt with
  | conditional line condition consequent rest =>
    simp only [Source.Stmt.isPlain, Bool.and_eq_true] at isPlain
    exact conditional (lower_follows isPlain.1.1) (block isPlain.1.2) (alternative isPlain.2)
  | loop line condition body =>
    simp only [Source.Stmt.isPlain, Bool.and_eq_true] at isPlain
    exact loop (lower_follows isPlain.1) (block isPlain.2)
      (Source.Block.lasting_run meaning file body)
  | expression value => exact expression (lower_follows isPlain)
  | _ => cases isPlain

theorem block {body : Source.Block} (isPlain : body.isPlain module = true) :
    Mirrors module file exit meaning texts (Lowering.block compileIncluded body)
      fun rounds => body.run meaning file rounds := by
  cases body with
  | mk line body => exact statements isPlain

theorem statements {body : List Source.Stmt} (arePlain : Source.arePlain module body = true) :
    Mirrors module file exit meaning texts (Lowering.statements compileIncluded body)
      fun rounds => Source.runAll meaning file rounds body := by
  cases body with
  | nil => exact pure
  | cons first rest =>
    rw [Source.arePlain, Bool.and_eq_true] at arePlain
    have goesOn : first.isResult = false := by
      cases first with
      | result line value => cases arePlain.1
      | _ => rfl
    simp only [Lowering.statements, goesOn, Bool.not_false, if_true]
    exact seq (statement arePlain.1) (statements arePlain.2)
      (Source.Stmt.lasting_run meaning file first) (Source.lasting_runAll meaning file rest)

theorem alternative {rest : Source.Alternative} (isPlain : rest.isPlain module = true) :
    Mirrors module file exit meaning texts (Lowering.alternative compileIncluded rest)
      fun rounds => rest.run meaning file rounds := by
  cases rest with
  | absent => exact pure
  | block body => exact block isPlain
  | conditional line condition consequent rest =>
    simp only [Source.Alternative.isPlain, Bool.and_eq_true] at isPlain
    exact conditional (lower_follows isPlain.1.1) (block isPlain.1.2) (alternative isPlain.2)

end

end Statements

end Mirrors

/-! ## Declarations -/

variable {name : String}

theorem Matches.declare {bindings newer : String → Option Binding} {bound : Nat} {world : World R}
    {state final : State R} {binding : Binding} {value : Scalar R}
    (matched : Matches meaning texts bindings world state)
    (slots : ∀ name binding, bindings name = some binding → Below bound binding.address)
    (agree : Agree bound state final)
    (isSlot : binding.address.slot? meaning texts final = some state.memory.length)
    (memory : final.memory = state.memory ++ [some value.datum])
    (calls : final.calls = state.calls) (typed : value.type = binding.type)
    (declares : ∀ other, newer other = if other = name then some binding else bindings other) :
    Matches meaning texts newer { world with values := world.values.insert name value } final := by
  have old : ∀ other one slot, bindings other = some one →
      one.address.slot? meaning texts final = some slot → slot < state.memory.length := by
    intro other one slot isOther atSlot
    obtain ⟨held, datum, isHeld, holds, _, _⟩ := matched.held other one isOther
    rw [(slots other one isOther).slot? agree, isHeld, Option.some.injEq] at atSlot
    subst atSlot
    exact (List.getElem?_eq_some_iff.mp holds).1
  constructor
  · exact calls.trans matched.calls
  · intro other isAbsent
    rw [declares] at isAbsent
    split at isAbsent
    · cases isAbsent
    · next isOther =>
        rw [Table.get?_insert, if_neg isOther]
        exact matched.absent other isAbsent
  · intro other one isBound
    rw [declares] at isBound
    rw [Table.get?_insert, memory]
    by_cases here : other = name
    · rw [if_pos here, Option.some.injEq] at isBound
      subst isBound
      rw [if_pos here]
      refine ⟨_, value, isSlot, ?_, rfl, typed⟩
      rw [List.getElem?_append_right (Nat.le_refl _), Nat.sub_self]
      rfl
    · rw [if_neg here] at isBound
      rw [if_neg here]
      obtain ⟨slot, held, isHeld, holds, isValue, sameType⟩ := matched.held other one isBound
      refine ⟨slot, held, ?_, ?_, isValue, sameType⟩
      · rw [(slots other one isBound).slot? agree]
        exact isHeld
      · rw [List.getElem?_append_left (List.getElem?_eq_some_iff.mp holds).1]
        exact holds
  · intro first second one other slot isFirst isSecond atFirst atSecond
    rw [declares] at isFirst isSecond
    by_cases firstHere : first = name <;> by_cases secondHere : second = name
    · rw [firstHere, secondHere]
    · rw [if_pos firstHere, Option.some.injEq] at isFirst
      rw [if_neg secondHere] at isSecond
      subst isFirst
      rw [isSlot, Option.some.injEq] at atFirst
      have inside := old second other slot isSecond atSecond
      omega
    · rw [if_neg firstHere] at isFirst
      rw [if_pos secondHere, Option.some.injEq] at isSecond
      subst isSecond
      rw [isSlot, Option.some.injEq] at atSecond
      have inside := old first one slot isFirst atFirst
      omega
    · rw [if_neg firstHere] at isFirst
      rw [if_neg secondHere] at isSecond
      rw [(slots first one isFirst).slot? agree] at atFirst
      rw [(slots second other isSecond).slot? agree] at atSecond
      exact matched.apart first second one other slot isFirst isSecond atFirst atSecond

section

variable (scalar : ScalarBench module file before)

include scalar

theorem ScalarBench.bindName {binding : Binding}
    (below : Below before.frame.draft.temporaries binding.address)
    (typed : IsScalarType binding.type) :
    ScalarBench module file (before.binding name binding) where
  id := scalar.id
  functions := scalar.functions
  source := scalar.source
  named := scalar.named
  valid := scalar.valid
  declares := scalar.declares
  slots other found isBound := by
    rw [Workbench.binding?_binding] at isBound
    split at isBound
    · cases isBound
      exact ⟨below, typed⟩
    · exact scalar.slots other found isBound
  scopes := by
    rw [← List.length_pos_iff, Workbench.depth_binding]
    exact List.length_pos_iff.mpr scalar.scopes

variable (ready : Ready exit before.frame.draft)

include ready

/-- A value that was computed is put into a new slot under a name. -/
theorem carried_slot (layout : IR.Ty) {bench : Workbench} {code : List IR.Instruction}
    {operand : Operand} {evaluation : Evaluation R (Scalar R)}
    (lowers : Lowers module file before code bench)
    (isScalar : IsScalar bench.frame.draft.temporaries operand)
    (computes : bench.frame.draft.texts <+: texts → Computes meaning texts before.binding?
      (fun _ => True) code evaluation (Holds meaning texts operand))
    (outcome : (do
      let slot ← Lower.emit (Emit.compute (.alloca layout none))
      Lower.emit (Emit.store operand.value slot)
      Lower.bindName name slot operand.type : Lower Unit) bench = .ok () after) :
    Carried module file exit meaning texts before after
      fun _ => evaluation >>= Evaluation.declare name := by
  obtain ⟨slot, allocated, allocates, outcome⟩ := bind_eq_ok outcome
  obtain ⟨⟨⟩, stored, stores, outcome⟩ := bind_eq_ok outcome
  obtain ⟨rfl, larger, lowersSlot⟩ := lowers.scalar.compute allocates
  have lowersStore := lowersSlot.scalar.perform stores
  have lowersAll := lowers.trans (lowersSlot.trans lowersStore lowers.scalar.valid) scalar.valid
  let binding : Binding := ⟨.result (.temporary bench.frame.draft.temporaries)
    (IR.Operation.alloca layout none).resultType, operand.type⟩
  have same : after = stored.binding name binding := by
    cases outcome
    rfl
  subst same
  have isBelow : Below stored.frame.draft.temporaries binding.address := by
    apply (below_result _ _).mono
    rw [← larger]
    exact lowersStore.grows.temporaries
  have builds := lowersAll.grows.builds ready
  refine ⟨.straight _, ⟨builds, rfl, lowersAll.texts,
    lowersAll.scalar.bindName isBelow isScalar.typed⟩, ?_⟩
  intro starts
  apply Simulates.straight
  intro world state matched
  rw [IR.executeAll_append]
  apply rel_bind (computes ((lowersSlot.texts.trans lowersStore.texts).trans starts) world state
    matched trivial)
  intro outcome middle related
  obtain ⟨matchedMiddle, holds⟩ := related
  -- The slot is new, so what it holds disturbs no other name.
  let opened : State R := State.define { middle with memory := middle.memory ++ [none] }
    (.temporary bench.frame.draft.temporaries) (some (.address middle.memory.length))
  let final : State R := { opened with memory := middle.memory ++ [some outcome.1.datum] }
  have agree : Agree bench.frame.draft.temporaries middle opened :=
    Computes.agree_define { middle with memory := middle.memory ++ [none] } _
  have reads : operand.value.read meaning texts opened = some outcome.1.datum := by
    rw [isScalar.below.read agree]
    exact holds.1
  have isSlot : binding.address.slot? meaning texts opened = some middle.memory.length := by
    simp [binding, opened, IR.Value.slot?]
  have allocation : executeAll meaning texts
      [⟨some (.temporary bench.frame.draft.temporaries), .alloca layout none⟩] middle =
        some opened := rfl
  have storing : executeAll meaning texts [⟨none, .store operand.value binding.address⟩] opened =
      some final := by
    simp only [IR.executeAll_singleton, IR.Instruction.execute, IR.Operation.execute, reads, isSlot]
    simp [final, opened]
  rw [IR.executeAll_append, allocation]
  change Option.Rel _ _ (executeAll meaning texts _ opened)
  rw [storing]
  have declares : ∀ other, (stored.binding name binding).binding? other =
      if other = name then some binding else before.binding? other := by
    intro other
    rw [Workbench.binding?_binding, lowersAll.binding?]
    simp [lowersAll.scalar.scopes]
  have belows := lowers.scalar.belows
  rw [lowers.binding?] at belows
  have agreeFinal : Agree bench.frame.draft.temporaries middle final := agree
  have isSlotFinal : binding.address.slot? meaning texts final = some middle.memory.length := isSlot
  exact .some (matchedMiddle.declare belows agreeFinal isSlotFinal rfl rfl holds.2 declares)

/-- A constant is put into a new slot under a name. -/
theorem carried_constant (layout : IR.Ty) {value : IR.Value} {type : Ty} {constant : Scalar R}
    (plain : value.resultName? = none) (typed : constant.type = type) (isScalar : IsScalarType type)
    (reads : ∀ state, value.read meaning texts state = some constant.datum) (outcome : (do
      let slot ← Lower.emit (Emit.compute (.alloca layout none))
      Lower.emit (Emit.store value slot)
      Lower.bindName name slot type : Lower Unit) before = .ok () after) :
    Carried module file exit meaning texts before after
      fun _ => Evaluation.declare name constant := by
  have below : Below before.frame.draft.temporaries value := by
    intro other isName
    rw [plain] at isName
    cases isName
  have computes : before.frame.draft.texts <+: texts → Computes meaning texts before.binding?
      (fun _ => True) [] (pure constant) (Holds meaning texts ⟨value, type, false⟩) :=
    fun _ => .pure fun state _ => ⟨reads state, typed⟩
  exact carried_slot scalar ready layout (.refl scalar) ⟨below, isScalar⟩ computes outcome

theorem carried_initialisation {line : Nat} {value : Source.Expr}
    (isScalar : value.isScalar module = true)
    (outcome : initialisation name (lower value) before = .ok () after) :
    Carried module file exit meaning texts before after
      fun rounds => (Source.Stmt.initialisation line name value).run meaning file rounds := by
  obtain ⟨operand, bench, valued, outcome⟩ := bind_eq_ok outcome
  obtain ⟨code, lowers, isOperand, computes⟩ := (lower_follows isScalar).value scalar valued
  obtain ⟨source, type, _⟩ := operand
  rcases isOperand.typed with rfl | rfl
  · exact carried_slot scalar ready .i1 lowers isOperand (fun starts => computes starts ()) outcome
  · exact carried_slot scalar ready .double lowers isOperand (fun starts => computes starts ())
      outcome

/-- The code of a scalar statement does what the evaluator does. -/
theorem carried_statement {compileIncluded : Includer}
    {stmt : Source.Stmt} (isScalar : stmt.isScalar module = true)
    (outcome : statement compileIncluded stmt before = .ok () after) :
    Carried module file exit meaning texts before after
      fun rounds => stmt.run meaning file rounds := by
  cases stmt with
  | declaration line name type =>
    cases type with
    | builtin type =>
      cases type with
      | bool => exact carried_constant scalar ready .i1 rfl rfl (.inl rfl) (fun _ => rfl) outcome
      | real =>
        exact carried_constant scalar ready .double rfl rfl (.inr rfl) (fun _ => rfl) outcome
      | string => cases isScalar
    | _ => cases isScalar
  | initialisation line name value => exact carried_initialisation scalar ready isScalar outcome
  | _ => exact (Mirrors.statement isScalar before after scalar ready outcome).2

end

end Benches

/-! ## Whole programs -/

/-- What the slot of a name holds. -/
def Workbench.content? (bench : Workbench) (meaning : Interpretation R) (texts : List String)
    (state : State R) (name : String) : Option (Datum R) := do
  let binding ← bench.binding? name
  let slot ← binding.address.slot? meaning texts state
  (← state.memory[slot]?)

theorem Matches.content? {bench : Workbench} {world : World R} {state : State R}
    (matched : Matches meaning texts bench.binding? world state) (name : String) :
    bench.content? meaning texts state name = (world.values.get? name).map Scalar.datum := by
  unfold Workbench.content?
  cases isBound : bench.binding? name with
  | none =>
    rw [matched.absent name isBound]
    rfl
  | some binding =>
    obtain ⟨slot, value, isSlot, holds, isValue, _⟩ := matched.held name binding isBound
    simp [isSlot, holds, isValue]

end Programs

end Kronk.Lowering

namespace Kronk.IR

/-- The program of a module gets from its entry to its exit. -/
def Module.Exits {R : Type} (meaning : Interpretation R) (module : Module) (final : State R) :
    Prop :=
  ∃ program entry exit, module.functions.find? (fun function => function.name == "main") =
      some program ∧
    Block.position? program.blocks "ProgramEntry" = some entry ∧
    Block.position? program.blocks "ProgramExit" = some exit ∧
    Block.Arrives meaning module.texts program.blocks ⟨entry, 0⟩ .initial ⟨exit, 0⟩ final

end Kronk.IR

namespace Kronk.Compile

open Lowering Source

section Programs

variable {R : Type} {meaning : Interpretation R} {texts : List String}

variable {module : String}

theorem Noted.scalar {file : String} {read : Reading} {before after : Workbench}
    (noted : Noted read before after) (scalar : ScalarBench module file before) :
    ScalarBench module file after := by
  have same : after.binding? = before.binding? := by
    funext name
    unfold Workbench.binding?
    rw [noted.scopes]
  constructor
  · rw [noted.module]
    exact scalar.id
  · rw [noted.module]
    exact scalar.functions
  · rw [noted.module]
    exact scalar.source
  · rw [noted.file, noted.draft]
    exact scalar.named
  · rw [noted.draft]
    exact scalar.valid
  · rw [noted.draft]
    exact scalar.declares
  · rw [same, noted.draft]
    exact scalar.slots
  · rw [noted.scopes]
    exact scalar.scopes

/-- Where only what was read was recorded, nothing is done. -/
theorem Noted.carried {file exit : String} {read : Reading} {before after : Workbench}
    (noted : Noted read before after) (ready : Ready exit before.frame.draft)
    (scalar : ScalarBench module file before) :
    Carried module file exit meaning texts before after fun _ => pure () := by
  have grows : Grows before.frame.draft [] after.frame.draft := by
    rw [noted.draft]
    exact .of_same rfl rfl rfl rfl rfl
  have same : after.binding? = before.binding? := by
    funext name
    unfold Workbench.binding?
    rw [noted.scopes]
  refine ⟨.straight [], ⟨grows.builds ready, rfl, ?_, noted.scalar scalar⟩, ?_⟩
  · exact noted.draft ▸ List.prefix_refl _
  · intro _
    rw [same]
    exact .of_computes (.pure fun _ _ => trivial)

/-- The code of scalar statements does what the evaluator does with all of them. -/
theorem statements_carried {compileIncluded : Includer} {fuel : Nat}
    {reading : Reading} {bench final : Workbench} {file exit : String}
    (areScalar : ∀ stmt ∈ written compileIncluded fuel reading bench, stmt.isScalar module = true)
    (ready : Ready exit bench.frame.draft) (scalar : ScalarBench module file bench)
    (outcome : statements compileIncluded fuel reading bench = .ok () final) :
    Carried module file exit meaning texts bench final fun rounds =>
      runAll meaning file rounds (written compileIncluded fuel reading bench) := by
  induction fuel generalizing reading bench with
  | zero => cases outcome
  | succ fuel ih =>
    rcases statements_cases outcome with ⟨_, read, noted⟩ |
      ⟨found, after, later, read, lowers, rest⟩
    · rw [written, read]
      exact noted.carried ready scalar
    · rw [written, read] at areScalar ⊢
      simp only [lowers] at areScalar ⊢
      obtain ⟨middle, noted, lowered⟩ := lowerRead_spec lowers
      have carriedNote : Carried module file exit meaning texts bench middle fun _ => pure () :=
        noted.carried ready scalar
      have carriedFirst : Carried module file exit meaning texts middle later fun rounds =>
          found.run meaning file rounds :=
        carried_statement carriedNote.ends.2 carriedNote.ends.1
          (areScalar found List.mem_cons_self) lowered
      have carriedRest := ih
        (fun stmt member => areScalar stmt (List.mem_cons_of_mem _ member)) carriedFirst.ends.1
        carriedFirst.ends.2 rest
      exact carriedNote.seq (carriedFirst.seq carriedRest (Stmt.lasting_run meaning file found)
        (lasting_runAll meaning file _)) (.const _) (lasting_runAll meaning file (found :: _))

private theorem scalar_initial (session : Session) (id path : String) :
    ScalarBench id (Path.base path) ⟨session, Frame.initial id path⟩ where
  id := rfl
  functions _ := rfl
  source := rfl
  named := ⟨0, _, rfl, rfl⟩
  valid := Nat.zero_lt_one
  declares := by
    refine ⟨rfl, ?_⟩
    intro function member result isRoutine
    obtain rfl := List.mem_singleton.mp member
    cases isRoutine
  slots name binding isBound := by cases isBound
  scopes := List.cons_ne_nil _ _

private theorem matches_initial (session : Session) (id path : String) :
    Matches meaning texts (Workbench.binding? ⟨session, Frame.initial id path⟩) {}
      IR.State.initial where
  calls := rfl
  absent _ _ := rfl
  held name binding isBound := by cases isBound
  apart first second one other slot isFirst := by cases isFirst

/-- The program of a finished module gets from its entry to its exit exactly as its structured code
executes. -/
theorem exits_finish_iff {id path : String} {final : Workbench} {code : IR.Code}
    (builds : Builds "ProgramExit" (Frame.initial id path).draft code final.frame.draft)
    (stays : code.stays = true)
    (named : final.frame.draft.functions[0]?.map IR.Function.name = some "main")
    (state : IR.State R) : (final.frame.finish false).code.Exits meaning state ↔
      code.Executes meaning final.frame.draft.texts .initial state := by
  have ready := builds.ready (IR.Code.leaves_of_stays stays)
  obtain ⟨since, lays, continues⟩ := builds.jumping "ProgramExit"
  have isProgram : final.frame.draft.place.function = 0 := builds.since.function
  -- The blocks of the program, the last of which is the exit.
  let blocks := (closing final.frame.draft).2.blocks
  have isClosed : blocks = (final.frame.draft.jumping "ProgramExit").blocks ++
      [⟨"ProgramExit", [], some (.ret (some (.integer .i32 0)))⟩] := blocks_closing ready
  have grown : IR.Block.Extends (final.frame.draft.jumping "ProgramExit").blocks blocks := by
    rw [isClosed]
    exact .append _
  have entry : IR.Block.position? blocks "ProgramEntry" = some 0 :=
    grown.labels _ _ (since.extended.labels "ProgramEntry" 0 rfl)
  have exit : IR.Block.position? blocks "ProgramExit" =
      some (final.frame.draft.jumping "ProgramExit").blocks.length := by
    have before := since.labelled.position?_exit
    unfold IR.Block.position? at before ⊢
    rw [isClosed, List.findIdx?_append, before]
    simp [List.findIdx?_cons]
  have returns : IR.Block.Ends blocks
      ⟨(final.frame.draft.jumping "ProgramExit").blocks.length, 0⟩
      (.ret (some (.integer .i32 0))) := by
    refine ⟨⟨"ProgramExit", [], some (.ret (some (.integer .i32 0)))⟩, ?_, rfl, rfl⟩
    rw [isClosed]
    simp
  have program : ∃ function, (final.frame.finish false).code.functions.find?
      (fun function => function.name == "main") = some function ∧ function.blocks = blocks := by
    have closedStays := closing_stays final.frame.draft
    have isCurrent : (closing final.frame.draft).2.function? =
        (closing final.frame.draft).2.functions[0]? := by
      unfold Draft.function?
      rw [closedStays.function, isProgram]
    have sameName := (Outside.of_stays closedStays).named
    rw [isCurrent, Draft.function?, isProgram, named] at sameName
    obtain ⟨function, found, isMain⟩ := Option.map_eq_some_iff.mp sameName
    refine ⟨function, ?_, ?_⟩
    · change (closing final.frame.draft).2.functions.find? _ = some function
      obtain ⟨inside, same⟩ := List.getElem?_eq_some_iff.mp found
      rw [List.find?_eq_some_iff_getElem]
      exact ⟨by simp [isMain], 0, inside, same, fun _ below => absurd below (Nat.not_lt_zero _)⟩
    · change function.blocks = (closing final.frame.draft).2.blocks
      rw [Draft.blocks, isCurrent, found]
      rfl
  have texts : (final.frame.finish false).code.texts = final.frame.draft.texts :=
    (closing_stays final.frame.draft).texts
  have goesOn := continues (IR.Code.leaves_of_stays stays)
  obtain ⟨last, found, length, ended⟩ := goesOn
  have leads : IR.Block.Ends blocks final.frame.draft.point (.jump "ProgramExit") := by
    obtain ⟨other, foundOther, _, same⟩ := grown.instructions _ _ found
    obtain rfl := same (by rw [ended]; rfl)
    exact ⟨other, foundOther, length, ended⟩
  have laid := grown.lays lays
  rw [(ready_initial id path).2] at laid
  rw [← IR.Block.returns_iff laid stays leads exit returns]
  obtain ⟨function, found, same⟩ := program
  constructor
  · rintro ⟨other, start, stop, foundOther, atStart, atStop, arrives⟩
    rw [found, Option.some.injEq] at foundOther
    subst foundOther
    rw [same, entry, Option.some.injEq] at atStart
    rw [same, exit, Option.some.injEq] at atStop
    subst atStart atStop
    rwa [same, texts] at arrives
  · intro arrives
    refine ⟨function, 0, (final.frame.draft.jumping "ProgramExit").blocks.length, found, ?_, ?_, ?_⟩
    · rw [same, entry]
    · rw [same, exit]
    · rwa [same, texts]

/-- The calls that a program has made and what the names stand for in the end are what an evaluation
comes to. -/
def Reflects (meaning : Interpretation R) (bench : Workbench) (world : World R)
    (final : IR.State R) : Prop :=
  final.calls = world.calls ∧ ∀ name, bench.content? meaning bench.frame.draft.texts final name =
    (world.values.get? name).map Scalar.datum

/-- A program gets from its entry to its exit exactly if the evaluator comes to an end with its
statements, and then both have made the same calls and the names stand for the same values. -/
def ReturnsLike (meaning : Interpretation R) (file : String) (program : List Stmt)
    (bench : Workbench) : Prop :=
  (∀ world, Terminates (fun rounds => runAll meaning file rounds program) {} world →
    ∃ final, (bench.frame.finish false).code.Exits meaning final ∧
      Reflects meaning bench world final) ∧
  ∀ final, (bench.frame.finish false).code.Exits meaning final →
    ∃ world, Terminates (fun rounds => runAll meaning file rounds program) {} world ∧
      Reflects meaning bench world final

theorem body_returnsLike {compileIncluded : Includer} {text : String}
    {session : Session} {id path : String} {bench : Workbench}
    (areScalar : ∀ stmt ∈ writtenIn compileIncluded text ⟨session, Frame.initial id path⟩,
      stmt.isScalar id = true)
    (outcome : body compileIncluded text ⟨session, Frame.initial id path⟩ = .ok () bench) :
    ReturnsLike meaning (Path.base path)
      (writtenIn compileIncluded text ⟨session, Frame.initial id path⟩) bench := by
  unfold body at outcome
  obtain ⟨start, _, ⟨⟩, outcome⟩ := bind_eq_ok outcome
  unfold writtenIn at areScalar ⊢
  dsimp only at outcome areScalar ⊢
  generalize found : Reading.start _ _ _ = started at outcome areScalar ⊢
  cases started with
  | error failure stopped => cases outcome
  | ok nothing reading =>
    have carried : Carried id (Path.base path) "ProgramExit" meaning bench.frame.draft.texts
        ⟨session, Frame.initial id path⟩ bench _ :=
      statements_carried areScalar (ready_initial id path).1 (scalar_initial session id path)
        outcome
    obtain ⟨code, moves, simulates⟩ := carried
    have simulation := simulates (List.prefix_refl _)
    have initial : Matches meaning bench.frame.draft.texts
        (Workbench.binding? ⟨session, Frame.initial id path⟩) {} IR.State.initial :=
      matches_initial session id path
    have exits : ∀ final : IR.State R, (bench.frame.finish false).code.Exits meaning final ↔
        code.Executes meaning bench.frame.draft.texts .initial final :=
      exits_finish_iff moves.builds moves.stays moves.scalar.declares.1
    constructor
    · intro world terminates
      obtain ⟨final, executes, matched⟩ := simulation.forth _ _ _ initial terminates
      exact ⟨final, (exits final).mpr executes, matched.calls, matched.content?⟩
    · intro final arrives
      obtain ⟨world, terminates, matched⟩ :=
        simulation.back _ _ _ initial ((exits final).mp arrives)
      exact ⟨world, terminates, matched.calls, matched.content?⟩

/-- The program of a scalar file gets from its entry to its exit exactly if the evaluator comes to
an end, with the same calls and the same values of the variables, whatever the arithmetic. -/
theorem file_returns_iff {includedAt : Location} {fuel : Nat} {path id source result : String}
    {session after : Session} {content : ByteArray}
    (located : session.files.absolute path = source)
    (isNew : session.registry.idOfFile? source = none)
    (readable : session.files.stat source = .ok (.file content))
    (areScalar : ∀ stmt ∈ statementsOf [] fuel source (effectiveId source id) content session,
      stmt.isScalar (effectiveId source id) = true)
    (outcome : file [] includedAt (fuel + 1) path id session = .ok result after) :
    ∃ bench, lowering [] fuel source (effectiveId source id) content
        ⟨bound session source (effectiveId source id),
          Frame.initial (effectiveId source id) source⟩ = .ok () bench ∧
      after.registry.registrations =
        bench.frame.finish false :: bench.session.registry.registrations ∧
      ∀ (R : Type) (meaning : Interpretation R), ReturnsLike meaning (Path.base source)
        (statementsOf [] fuel source (effectiveId source id) content session) bench := by
  have cases := file_outcome [] includedAt fuel path id session
  rw [outcome, located] at cases
  cases cases with
  | duplicate isBound _ _ =>
    rw [isNew] at isBound
    cases isBound
  | @compiled other bench log _ isRead lowered =>
    rw [readable] at isRead
    cases isRead
    exact ⟨bench, lowered, rfl, fun R meaning => body_returnsLike areScalar lowered⟩

/-- Arithmetic on whole numbers: a literal is cut at its point, and every routine answers zero. -/
def wholeNumbers : Interpretation Int where
  literal x :=
    let magnitude : Nat := x.significand * Nat.pow 2 x.scale / Nat.pow 2 1074
    if x.isNegative then -magnitude else magnitude
  plus x y := x + y
  minus x y := x - y
  times x y := x * y
  divide x y := x / y
  remainder x y := x % y
  negate x := -x
  less x y := x < y
  greater x y := y < x
  lessEqual x y := x ≤ y
  greaterEqual x y := y ≤ x
  equal x y := x == y
  notEqual x y := x != y
  toInteger x := .ofInt 64 x
  ofInteger x := x.toInt
  shiftLeft x y := x <<< y.toNat
  shiftRight x y := x >>> y.toNat
  answer _ _ := some 0

/-- A program with nested assignments, a chain of comparisons, a loop and a conditional. -/
def halvingText : String :=
  "soit n = 8\nsoit k : reel\nsoit small : bool\nTantque n > 1 \x7b\nn = (k = n) / 2\n" ++
    "Si 0 < n < 3 \x7b\nsmall = vrai\n\x7d Sinon \x7b\nafficher(n, small)\n\x7d\n\x7d\n" ++
    "afficher(k ** n)\n"

def halving : Session where
  files := { nodes := ⟨[("/main.krk", .file halvingText.toUTF8)]⟩ }

/-- The program compiles, and its code gets to its exit after six routine calls. -/
theorem halving_returns : ∃ result after, ∃ bench : Workbench, ∃ final : IR.State Int,
    file [] {} 2 "main.krk" "" halving = .ok result after ∧
      after.registry.registrations =
        bench.frame.finish false :: bench.session.registry.registrations ∧
      (bench.frame.finish false).code.Exits wholeNumbers final ∧ final.calls.length = 6 := by
  have located : halving.files.absolute "main.krk" = "/main.krk" := rfl
  have isNew : halving.registry.idOfFile? "/main.krk" = none := rfl
  have readable : halving.files.stat "/main.krk" = .ok (.file halvingText.toUTF8) := rfl
  have areScalar : ∀ stmt ∈ statementsOf [] 1 "/main.krk" (effectiveId "/main.krk" "")
      halvingText.toUTF8 halving, stmt.isScalar (effectiveId "/main.krk" "") = true := by
    rw [← List.all_eq_true]
    decide +kernel
  have evaluates : (runAll wholeNumbers "main.krk" 4 (statementsOf [] 1 "/main.krk"
      (effectiveId "/main.krk" "") halvingText.toUTF8 halving) {}).map
        (fun final => final.2.calls.length) = some 6 := by
    decide +kernel
  have succeeds : (match file [] {} 2 "main.krk" "" halving with
      | .ok _ _ => true
      | .error _ _ => false) = true := by
    decide +kernel
  obtain ⟨⟨_, world⟩, ends, counted⟩ := Option.map_eq_some_iff.mp evaluates
  cases outcome : file [] {} 2 "main.krk" "" halving with
  | error failure after =>
    rw [outcome] at succeeds
    cases succeeds
  | ok result after =>
    obtain ⟨bench, _, registered, returns⟩ :=
      file_returns_iff located isNew readable areScalar outcome
    obtain ⟨final, exits, sameCalls, _⟩ := (returns Int wholeNumbers).1 world ⟨4, ends⟩
    exact ⟨result, after, bench, final, rfl, registered, exits, by rw [sameCalls, counted]⟩

end Programs

end Kronk.Compile
