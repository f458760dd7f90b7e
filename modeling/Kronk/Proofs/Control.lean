import Kronk.Proofs.Statements

/-!
# The code of conditionals and loops

A conditional makes two bodies that come together again, and a loop goes back to its test.  What is
definite after them was declared on both ways, or before.
-/

namespace Kronk.Lowering

open IR (Block Code results)
open Source (Definite)

variable {strict : Prop}

theorem Draws.conditionValue {names : List String} {known : Locals}
    {condition : Fragment} (draws : condition.Draws names) :
    Draws names known (conditionValue condition) Known :=
  .bind (draws.value known) fun _ _ _ isKnown => .guard (.pure isKnown)

variable {before entered middle last after : Workbench} {holds : IR.Value} {code : Code}

section

variable (goesIn : Goes strict [] before entered) (validIn : entered.frame.draft.Valid)
 (validOut : after.frame.draft.Valid)

include goesIn validIn validOut

/-- Two ways that come together carry on what both of them carry on. -/
theorem Carries.branch {given : List IR.Value} {definite first second : Definite}
    {declaredFirst declaredSecond : List String} {turned : Workbench} {other : Code}
    (isGiven : holds ∈ given) (carries : Carries [] definite first entered code middle)
    (carriesOn : Carries [] (definite.without declaredFirst) second turned other last)
    (goesOver : Goes strict declaredFirst before turned)
    (goesRest : Goes strict declaredSecond middle after) (goesOut : Goes strict [] last after)
    (validOver : turned.frame.draft.Valid) :
    Carries given definite ((first.without declaredSecond).meet second) before
      (.branch holds code other) after := by
  intro names known same knows supplies
  have suppliesFirst := supplies.goes goesIn validIn (Locals.subset_refl known)
  have suppliesSecond := goesOver.supplies validOver supplies (Locals.subset_refl known)
  have sameSecond : definite.without declaredFirst =
      some (names.filter fun name => name ∉ declaredFirst) := by
    rw [same]
    rfl
  obtain ⟨closed, ends⟩ := carries names known same nofun suppliesFirst
  obtain ⟨closedOn, endsOn⟩ := carriesOn _ known sameSecond nofun suppliesSecond
  constructor
  · exact IR.Code.Closed.branch_iff.mpr ⟨(knows holds isGiven).result, closed, closedOn⟩
  · intro run runs
    cases runs with
    | consequent runs =>
      obtain ⟨others, sameFirst, suppliesMiddle⟩ := ends run runs
      have kept : first.without declaredSecond =
          some (others.filter fun name => name ∉ declaredSecond) := by
        rw [sameFirst]
        rfl
      obtain ⟨rest, sameRest, subset⟩ := Definite.meet_left kept second
      have suppliesAfter := goesRest.supplies validOut suppliesMiddle (Locals.subset_refl _)
      exact ⟨rest, sameRest, suppliesAfter.subset subset⟩
    | alternative runs =>
      obtain ⟨others, sameSecond, suppliesLast⟩ := endsOn run runs
      obtain ⟨rest, sameRest, subset⟩ :=
        Definite.meet_right (first.without declaredSecond) sameSecond
      have suppliesAfter := suppliesLast.goes goesOut validOut (Locals.subset_refl _)
      exact ⟨rest, sameRest, suppliesAfter.subset subset⟩

/-- What two ways use is known before them; the names of the first one are known to the second. -/
theorem Ranges.branch {given : List IR.Value} {turned : Workbench} {other : Code}
    (isGiven : holds ∈ given) (ranges : Ranges [] entered code middle)
    (rangesOn : Ranges [] turned other last)
    (goesOver : Goes strict [] middle turned) (goesOut : Goes strict [] last after)
    (validOver : turned.frame.draft.Valid) :
    Ranges given before (.branch holds code other) after := by
  intro known knows supplies
  obtain ⟨uses, suppliesMiddle⟩ := ranges known nofun fun names =>
    (supplies names).goes goesIn validIn (Locals.subset_refl _)
  obtain ⟨usesOn, suppliesLast⟩ := rangesOn _ nofun fun names =>
    (suppliesMiddle names).goes goesOver validOver (Locals.subset_refl _)
  refine ⟨(uses.append usesOn).condition (knows holds isGiven), fun names => ?_⟩
  have later := (suppliesLast names).goes goesOut validOut (Locals.subset_refl _)
  rw [Locals.append_assoc, ← IR.results_append] at later
  exact later

/-- What a loop uses is known before it or defined in one of its rounds. -/
theorem Ranges.loop {tested : Workbench} {test : List IR.Instruction}
    (rangesTest : ∀ known, (∀ names, Supplies names known entered) →
      Needs known test ∧ (∀ names, Supplies names (known ++ results test) tested) ∧
        Known (known ++ results test) holds) (ranges : Ranges [] middle code last)
    (goesOver : Goes strict [] tested middle) (goesOut : Goes strict [] last after)
    (validOver : middle.frame.draft.Valid) : Ranges [] before (.loop test holds code) after := by
  intro known _ supplies
  obtain ⟨needs, suppliesTested, isKnown⟩ := rangesTest known fun names =>
    (supplies names).goes goesIn validIn (Locals.subset_refl _)
  obtain ⟨uses, suppliesLast⟩ := ranges _ nofun fun names =>
    (suppliesTested names).goes goesOver validOver (Locals.subset_refl _)
  refine ⟨needs.uses.append (uses.condition isKnown), fun names => ?_⟩
  have later := (suppliesLast names).goes goesOut validOut (Locals.subset_refl _)
  rw [Locals.append_assoc, ← IR.results_append] at later
  exact later

/-- A loop carries on what its body does not declare again. -/
theorem Carries.loop {definite : Definite} {declared : List String} {tested : Workbench}
    {test : List IR.Instruction} {later : Definite}
    (carriesTest : ∀ names known, definite = some names → Supplies names known entered →
      Needs known test ∧ Supplies names (known ++ results test) tested ∧
        Known (known ++ results test) holds) (carries : Carries [] definite later middle code last)
    (goesOver : Goes strict [] tested middle) (goes : Goes strict declared before after)
    (validOver : middle.frame.draft.Valid) :
    Carries [] definite (definite.without declared) before (.loop test holds code) after := by
  intro names known same _ supplies
  have suppliesIn := supplies.goes goesIn validIn (Locals.subset_refl known)
  obtain ⟨needs, suppliesTested, isKnown⟩ := carriesTest names known same suppliesIn
  have suppliesMiddle := suppliesTested.goes goesOver validOver (Locals.subset_refl _)
  obtain ⟨closedBody, _⟩ := carries names _ same nofun suppliesMiddle
  constructor
  · exact IR.Code.Closed.loop_iff.mpr
      ⟨IR.closed_straight_iff.mpr needs.results, isKnown.result, closedBody⟩
  · intro run _
    refine ⟨_, by rw [same]; rfl, ?_⟩
    exact goes.supplies validOut supplies (Locals.subset_append known _)

end

/-! ## Ways that are entered -/

section Ways

variable {exit first second third : String} {before entered tested middle turned : Workbench}
  {holds : IR.Value} {added : Draft} {declared : List String} {code : Code}
  {test : List IR.Instruction}

theorem Stands.openArms {arms : Arms} (stands : Stands strict exit before)
    (opens : Lower.emit (openArms holds) before = .ok arms entered) : ∃ first second third added,
      Opened exit before.frame.draft added [first, second, third] ∧
      arms = ⟨before.frame.draft.blocks.length + 1, third, before.frame.draft.blocks.length + 2⟩ ∧
      entered.frame.draft = (added.ended (.branch holds first second)).entering
        before.frame.draft.blocks.length ∧
      Goes strict [] before entered ∧ Stands strict exit entered := by
  obtain ⟨first, second, third, added, opened, equation⟩ := openArms_spec stands.ready holds
  have goes := Goes.emit stands.sound stands.ready.blocks_ne_nil (.openArms holds) opens
  have same := emit_eq_ok opens
  rw [equation, Prod.mk.injEq] at same
  refine ⟨first, second, third, added, opened, same.1.symm, same.2.symm, goes, ?_⟩
  apply goes.stands stands
  rw [← same.2]
  exact opened.ready _

/-- The second way of a conditional is entered after the first one. -/
theorem Opened.turn (opened : Opened exit before.frame.draft added [first, second, third])
    (draft : entered.frame.draft = (added.ended (.branch holds first second)).entering
      before.frame.draft.blocks.length)
    (stands : Stands strict exit entered)
    (proceeds : Proceeds strict exit declared entered code middle)
    (turns : Lower.emit (turnArms ⟨before.frame.draft.blocks.length + 1, third,
      before.frame.draft.blocks.length + 2⟩) middle = .ok () turned) :
    turned.frame.draft = (middle.frame.draft.jumping third).entering
        (before.frame.draft.blocks.length + 1) ∧
      Goes strict [] middle turned ∧ Stands strict exit turned := by
  have builds := proceeds.builds
  rw [draft] at builds
  obtain ⟨since, fresh⟩ := opened.later builds third
  have written := proceeds.builds.since.blocks_ne_nil stands.ready.blocks_ne_nil
  have goes := Goes.emit proceeds.sound written (.turnArms _) turns
  have same := congrArg Prod.snd (emit_eq_ok turns)
  rw [turnArms_eq] at same
  dsimp only at same
  refine ⟨same.symm, goes, ?_⟩
  apply (proceeds.toGoes.trans goes).stands stands
  rw [← same]
  exact (fresh 0 second rfl).ready since.labelled

theorem Stands.openLoop {round : Round} (stands : Stands strict exit before)
    (opens : Lower.emit openLoop before = .ok round entered) : ∃ first second third added,
      Opened exit before.frame.draft added [first, second, third] ∧
      round = ⟨first, second, before.frame.draft.blocks.length + 1, third,
        before.frame.draft.blocks.length + 2⟩ ∧
      entered.frame.draft = (added.ended (.jump first)).entering before.frame.draft.blocks.length ∧
      Goes strict [] before entered ∧ Stands strict exit entered := by
  obtain ⟨first, second, third, added, opened, equation⟩ := openLoop_spec stands.ready
  have goes := Goes.emit stands.sound stands.ready.blocks_ne_nil .openLoop opens
  have same := emit_eq_ok opens
  rw [equation, Prod.mk.injEq] at same
  refine ⟨first, second, third, added, opened, same.1.symm, same.2.symm, goes, ?_⟩
  apply goes.stands stands
  rw [← same.2]
  exact opened.ready _

theorem Opened.enterLoop (opened : Opened exit before.frame.draft added [first, second, third])
    (draft : entered.frame.draft = (added.ended (.jump first)).entering
      before.frame.draft.blocks.length) (stands : Stands strict exit tested)
    (builds : Builds exit entered.frame.draft (.straight test) tested.frame.draft)
    (enters : Lower.emit (enterLoop ⟨first, second, before.frame.draft.blocks.length + 1, third,
      before.frame.draft.blocks.length + 2⟩ holds) tested = .ok () middle) :
    middle.frame.draft = (tested.frame.draft.ended (.branch holds second third)).entering
        (before.frame.draft.blocks.length + 1) ∧
      Goes strict [] tested middle ∧ Stands strict exit middle := by
  rw [draft] at builds
  have goes := Goes.emit stands.sound stands.ready.blocks_ne_nil (.enterLoop _ _) enters
  have same := congrArg Prod.snd (emit_eq_ok enters)
  rw [enterLoop_eq] at same
  dsimp only at same
  obtain ⟨since, fresh, _⟩ := opened.loop_ready holds builds
  refine ⟨same.symm, goes, ?_⟩
  apply goes.stands stands
  rw [← same]
  exact fresh.ready since.labelled

end Ways

namespace Advances

variable {given : List IR.Value} {exit : String} {definite first second : Definite}
  {declaredFirst declaredSecond : List String} {leavesFirst leavesSecond : Bool}

/-- Two ways lead on from a condition and come together. -/
theorem branching {holds : IR.Value} {consequent alternative : Lower Unit}
    (isGiven : holds ∈ given)
    (advancesFirst : Advances strict [] exit definite first declaredFirst leavesFirst consequent)
    (advancesSecond : Advances strict [] exit (definite.without declaredFirst) second declaredSecond
      leavesSecond alternative) :
    Advances strict given exit definite ((first.without declaredSecond).meet second)
      (declaredFirst ++ declaredSecond) false (do
        let arms ← Lower.emit (openArms holds)
        consequent
        Lower.emit (turnArms arms)
        alternative
        Lower.emit (closeArms arms)) := by
  intro before after stands outcome
  obtain ⟨arms, entered, opens, outcome⟩ := bind_eq_ok outcome
  obtain ⟨⟨⟩, middle, outcomeFirst, outcome⟩ := bind_eq_ok outcome
  obtain ⟨⟨⟩, turned, turns, outcome⟩ := bind_eq_ok outcome
  obtain ⟨⟨⟩, last, outcomeSecond, closes⟩ := bind_eq_ok outcome
  obtain ⟨_, _, _, added, opened, rfl, draft, goesIn, standsFirst⟩ := stands.openArms opens
  obtain ⟨code, proceeds, _, carries, ranges⟩ :=
    advancesFirst entered middle standsFirst outcomeFirst
  have builds := proceeds.builds
  rw [draft] at builds
  obtain ⟨draftTurned, goesOver, standsSecond⟩ := opened.turn draft standsFirst proceeds turns
  have goesToSecond := (goesIn.trans proceeds.toGoes).trans goesOver
  obtain ⟨other, proceedsOn, _, carriesOn, rangesOn⟩ :=
    advancesSecond turned last standsSecond outcomeSecond
  have buildsOn := proceedsOn.builds
  rw [draftTurned] at buildsOn
  have writtenLast := proceedsOn.builds.since.blocks_ne_nil standsSecond.ready.blocks_ne_nil
  have goesOut := Goes.emit proceedsOn.sound writtenLast (.closeArms _) closes
  have draftAfter := congrArg Prod.snd (emit_eq_ok closes)
  rw [closeArms_eq] at draftAfter
  dsimp only at draftAfter
  have whole := opened.branch builds buildsOn
  rw [draftAfter] at whole
  refine ⟨.branch holds code other, ⟨?_, whole⟩, rfl, ?_, ?_⟩
  · apply ((goesToSecond.trans proceedsOn.toGoes).trans goesOut).weaken
    intro name
    simp
  · apply Carries.branch goesIn standsFirst.ready.labelled.valid whole.since.labelled.valid isGiven
      carries carriesOn (goesToSecond.weaken (by simp))
      ((goesOver.trans (proceedsOn.toGoes.trans goesOut)).weaken (by simp)) goesOut
    exact standsSecond.ready.labelled.valid
  · exact ranges.branch goesIn standsFirst.ready.labelled.valid whole.since.labelled.valid isGiven
      rangesOn goesOver goesOut standsSecond.ready.labelled.valid

variable {condition : Source.Expr}

theorem conditional {consequent alternative : Lower Unit}
    (settled : ∀ names, definite = some names → condition.mentions ⊆ names)
    (advancesFirst : Advances strict [] exit definite first declaredFirst leavesFirst consequent)
    (advancesSecond : Advances strict [] exit (definite.without declaredFirst) second declaredSecond
      leavesSecond alternative) :
    Advances strict [] exit definite ((first.without declaredSecond).meet second)
      (declaredFirst ++ declaredSecond) false
      (Lowering.conditional (lower condition) consequent alternative) := by
  apply bind (fun holds => [holds]) (.conditionValue (evaluates_lower condition))
  · intro names known mentioned _
    exact (Draws.conditionValue (draws_lower condition mentioned)).weaken
      fun _ _ isKnown => isKnown.knows
  · exact settled
  · intro holds
    exact branching (by simp) advancesFirst advancesSecond

theorem loop {body : Lower Unit}
    (settled : ∀ names, definite = some names → condition.mentions ⊆ names)
    (advances : Advances strict [] exit definite first declaredFirst leavesFirst body) :
    Advances strict [] exit definite (definite.without declaredFirst) declaredFirst false
      (Lowering.loop (lower condition) body) := by
  intro before after stands outcome
  obtain ⟨round, entered, opens, outcome⟩ := bind_eq_ok outcome
  obtain ⟨holds, tested, outcomeTest, outcome⟩ := bind_eq_ok outcome
  obtain ⟨⟨⟩, middle, enters, outcome⟩ := bind_eq_ok outcome
  obtain ⟨⟨⟩, last, outcomeBody, closes⟩ := bind_eq_ok outcome
  obtain ⟨_, _, _, added, opened, rfl, draft, goesIn, standsIn⟩ := stands.openLoop opens
  have drawsTest : ∀ names known, condition.mentions ⊆ names → Knows known [] →
      Draws names known (Lowering.conditionValue (lower condition)) Known :=
    fun names known mentioned _ => Draws.conditionValue (draws_lower condition mentioned)
  obtain ⟨test, grows, guarded, keeps, carriesTest⟩ :=
    Consults.straight (.conditionValue (evaluates_lower condition)) drawsTest standsIn.ready
      standsIn.sound outcomeTest
  have proceedsTest := Proceeds.straight standsIn grows guarded keeps
  have standsTested := proceedsTest.stands standsIn rfl
  have buildsTest := proceedsTest.builds
  obtain ⟨draftMiddle, goesOver, standsMiddle⟩ :=
    opened.enterLoop draft standsTested buildsTest enters
  rw [draft] at buildsTest
  obtain ⟨code, proceeds, _, carries, ranges⟩ := advances middle last standsMiddle outcomeBody
  have builds := proceeds.builds
  rw [draftMiddle] at builds
  have writtenLast := proceeds.builds.since.blocks_ne_nil standsMiddle.ready.blocks_ne_nil
  have goesOut := Goes.emit proceeds.sound writtenLast (.closeLoop _) closes
  have draftAfter := congrArg Prod.snd (emit_eq_ok closes)
  rw [closeLoop_eq] at draftAfter
  dsimp only at draftAfter
  have whole := opened.loop buildsTest builds
  rw [draftAfter] at whole
  have goes : Goes strict declaredFirst before after := by
    apply ((((goesIn.trans proceedsTest.toGoes).trans goesOver).trans proceeds.toGoes).trans
      goesOut).weaken
    intro name
    simp
  have validIn := standsIn.ready.labelled.valid
  have validOut := whole.since.labelled.valid
  refine ⟨.loop test holds code, ⟨goes, whole⟩, rfl, ?_, ?_⟩
  · apply Carries.loop goesIn validIn validOut _ carries goesOver goes
    · exact standsMiddle.ready.labelled.valid
    · intro names known isDefinite supplies
      exact carriesTest names known (settled names isDefinite) nofun supplies
  · apply Ranges.loop goesIn validIn validOut _ ranges goesOver goesOut
    · exact standsMiddle.ready.labelled.valid
    · intro known supplies
      obtain ⟨needs, _, isKnown⟩ :=
        carriesTest condition.mentions known (List.Subset.refl _) nofun (supplies _)
      refine ⟨needs, fun names => ?_, isKnown⟩
      obtain ⟨_, suppliesBoth, _⟩ := carriesTest (condition.mentions ++ names) known
        (List.subset_append_left _ _) nofun (supplies _)
      exact suppliesBoth.subset (List.subset_append_right _ _)

end Advances

end Kronk.Lowering
