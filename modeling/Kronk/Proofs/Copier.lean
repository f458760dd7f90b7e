import Kronk.Proofs.Building

/-!
# Copying routines

A routine that copies an entity tests every aggregate field and skips the copy of a field that is
null.  Its structured code uses nothing that is not defined before, so the routine is dominated and
a call of it is a straight emission.
-/

namespace Kronk.Lowering

open IR (Block Code results external)

variable {index : Nat}

/-- What emission did outside of the current function: functions were added, and they are
finished. -/
structure Outside (before after : Draft) : Prop extends Gains before after where
  head : after.function?.map head = before.function?.map head
  guarded : before.All Guarded → after.All Guarded

namespace Outside

variable {before after : Draft}

theorem of_stays (stays : Stays before after) : Outside before after where
  others index other _ := stays.others index other
  added index function outside found := by
    have inside := (List.getElem?_eq_some_iff.mp found).1
    rw [stays.length] at inside
    exact absurd inside (Nat.not_lt.mpr outside)
  length := Nat.le_of_eq stays.length.symm
  temporaries := Nat.le_of_eq stays.temporaries.symm
  head := stays.head
  guarded := stays.all .nil

theorem trans {middle : Draft} (former : Outside before middle) (latter : Outside middle after)
    (place : middle.place.function = before.place.function) (valid : before.Valid) :
    Outside before after where
  toGains := former.toGains.trans latter.toGains place valid
  head := latter.head.trans former.head
  guarded := latter.guarded ∘ former.guarded

theorem named (outside : Outside before after) :
    after.function?.map IR.Function.name = before.function?.map IR.Function.name := by
  have names := congrArg (Option.map IR.Function.name) outside.head
  rw [Option.map_map, Option.map_map] at names
  exact names

end Outside

variable {before after : Draft} {exit label : String}

theorem Grows.outside {code : List IR.Instruction} (grows : Grows before code after)
    (guarded : Guarded code) : Outside before after where
  toGains := grows.toGains
  head := by
    rw [grows.current, Option.map_map]
    rfl
  guarded := grows.all fun _ guardedBlock => guardedBlock.append guarded

/-- Structured code uses known locals only, and it does not leave the function. -/
structure Stationary (known : Locals) (code : Code) : Prop where
  closed : code.Closed known.results
  goesOn : code.leaves = false
  exits : ∀ exit, code.exits exit = []
  uses : Uses known code.instructions code.conditions

namespace Stationary

variable {known : Locals}

theorem straight {code : List IR.Instruction} (needs : Needs known code) :
    Stationary known (.straight code) :=
  ⟨IR.closed_straight_iff.mpr needs.results, rfl, fun _ => rfl, needs.uses⟩

theorem seq {first second : Code} (former : Stationary known first)
    (closed : ∀ run, first.Runs run → second.Closed (known.results ++ results run))
    (latter : Stationary (known ++ results first.instructions) second) :
    Stationary known (.seq first second) where
  closed := IR.Code.Closed.seq_iff.mpr ⟨former.closed, closed⟩
  goesOn := latter.goesOn
  exits exit := by rw [Code.exits, former.exits, latter.exits, List.append_nil]
  uses := former.uses.append latter.uses

theorem skip {holds : IR.Value} {body : Code} (isKnown : Known known holds)
    (stationary : Stationary known body) : Stationary known (.skip holds body) where
  closed := IR.Code.Closed.skip_iff.mpr ⟨isKnown.result, stationary.closed⟩
  goesOn := rfl
  exits exit := stationary.exits exit
  uses := stationary.uses.condition isKnown

theorem mono {more : Locals} {code : Code} (stationary : Stationary known code)
    (subset : known ⊆ more) : Stationary more code :=
  ⟨stationary.closed.mono subset.1, stationary.goesOn, stationary.exits,
    stationary.uses.mono subset⟩

end Stationary

/-- The emission builds structured code that uses known locals only, and goes on after it. -/
def Structured (exit : String) (known : Locals) (emission : Emit Unit) : Prop :=
  ∀ draft, Ready exit draft → ∃ code, Builds exit draft code (emission draft).2 ∧
    Outside draft (emission draft).2 ∧ Stationary known code

namespace Structured

variable {exit : String} {known : Locals}

theorem of_emits {emission : Emit Unit} {result : Locals → Unit → Prop}
    (emits : Emits known emission result) : Structured exit known emission := by
  intro draft ready
  obtain ⟨code, grows, needs, _⟩ := emits draft ready.labelled.valid
  exact ⟨_, grows.builds ready, grows.outside needs.guarded, .straight needs⟩

theorem bind {α : Type} {first : Emit α} {next : α → Emit Unit} {middle : Locals → α → Prop}
    (starts : Emits known first middle)
    (continues : ∀ more value, known ⊆ more → middle more value →
      Structured exit more (next value)) : Structured exit known (first >>= next) := by
  intro draft ready
  obtain ⟨code, grows, needs, holds⟩ := starts draft ready.labelled.valid
  have builds := grows.builds ready
  obtain ⟨later, buildsLater, outsideLater, stationary⟩ :=
    continues _ _ (Locals.subset_append _ _) holds _ (builds.ready rfl)
  refine ⟨_, builds.seq buildsLater,
    (grows.outside needs.guarded).trans outsideLater (by rw [grows.place]) ready.labelled.valid,
    .seq (.straight needs) (fun run runs => ?_) stationary⟩
  cases runs
  exact stationary.closed

/-- One structured emission after another one; the second one uses nothing of the first one. -/
theorem seq {first second : Emit Unit} (former : Structured exit known first)
    (latter : Structured exit known second) :
    Structured exit known (first >>= fun _ => second) := by
  intro draft ready
  obtain ⟨code, builds, outside, stationary⟩ := former draft ready
  obtain ⟨later, buildsLater, outsideLater, stationaryLater⟩ :=
    latter _ (builds.ready stationary.goesOn)
  refine ⟨_, builds.seq buildsLater,
    outside.trans outsideLater builds.since.function ready.labelled.valid,
    stationary.seq (fun run _ => ?_) (stationaryLater.mono (Locals.subset_append _ _))⟩
  exact stationaryLater.closed.mono (List.subset_append_left _ _)

theorem skipped {holds : IR.Value} (body : Emit Unit) (isKnown : Known known holds)
    (bodyStructured : Structured exit known body) :
    Structured exit known (do
      let (doneLabel, doneBlock) ← Emit.openUnless holds
      body
      Emit.terminate (.jump doneLabel)
      Emit.enterBlock doneBlock) := by
  intro draft ready
  obtain ⟨first, second, draft', opened, opening⟩ := openUnless_spec ready holds
  obtain ⟨code, builds, outside, stationary⟩ :=
    bodyStructured _ (opened.ready (.branch holds second first))
  have stays := Local.openUnless holds draft
  rw [opening] at stays
  have closing := (builds.ready stationary.goesOn).jumping second
  have skips := opened.skip builds
  rw [closing] at skips
  have final : ((do
      let (doneLabel, doneBlock) ← Emit.openUnless holds
      body
      Emit.terminate (.jump doneLabel)
      Emit.enterBlock doneBlock : Emit Unit) draft).2 =
      ((body ((draft'.ended (.branch holds second first)).entering draft.blocks.length)).2.ended
        (.jump second)).entering (draft.blocks.length + 1) := by
    simp only [Bind.bind, StateT.bind, opening]
    rfl
  rw [final]
  refine ⟨_, skips, ?_, stationary.skip isKnown⟩
  have valid := ready.labelled.valid
  have bodyOutside := (Outside.of_stays stays).trans outside stays.function valid
  refine bodyOutside.trans (.of_stays ?_) (builds.since.function.trans stays.function) valid
  exact (Local.terminate (.jump second) _).trans (Local.enterBlock _ _)

theorem copyUnlessNull {target : IR.Value} {record : IR.Ty} {type : Ty}
    {copying : IR.Value → IR.Value → Emit Unit} (isKnown : Known known target)
    (copies : ∀ known storage field, Known known storage → Known known field →
      Emits known (copying storage field) fun _ _ => True) :
    Structured exit known (Emit.copyUnlessNull target record index type copying) := by
  refine bind (Emits.fieldPointer record index isKnown)
    fun known₁ address subset₁ addressKnown => ?_
  refine bind (Emits.slotLayout type) fun known₂ slot subset₂ _ => ?_
  refine bind (Emits.load slot (addressKnown.mono subset₂))
    fun known₃ field subset₃ fieldKnown => ?_
  refine bind (Emits.valueLayout type) fun known₄ value subset₄ _ => ?_
  have fieldLater := fieldKnown.mono subset₄
  have compares : ∀ operand ∈ (IR.Operation.compareEqual false field (.null value)).operands,
      Known known₄ operand := by
    simpa [IR.Operation.operands] using ⟨fieldLater, Known.constant rfl⟩
  refine bind (Emits.compute trivial compares) fun known₅ isNull subset₅ nullKnown => ?_
  have addressLater := (((addressKnown.mono subset₂).mono subset₃).mono subset₄).mono subset₅
  have fills : Emits known₅ (do
      let storage ← Emit.heapAllocate value (.int64 1)
      copying storage field
      Emit.store storage address) fun _ _ => True := by
    refine .bind (.heapAllocate value (.constant rfl)) fun known₆ storage subset₆ storageKnown => ?_
    refine .bind (copies known₆ storage field storageKnown
      ((fieldLater.mono subset₅).mono subset₆)) fun known₇ _ subset₇ _ => ?_
    exact .store (storageKnown.mono subset₇)
      ((addressLater.mono subset₆).mono subset₇)
  exact skipped _ nullKnown (of_emits fills)

end Structured

/-! ## The routine is dominated -/

theorem Labelled.position?_exit {draft : Draft} (labelled : Labelled exit draft) :
    Block.position? draft.blocks exit = none := by
  unfold Block.position?
  rw [List.findIdx?_eq_none_iff]
  intro block member
  exact beq_eq_false_iff_ne.mpr (labelled.exitUnused block member)

/-- Closed code from the start of a function to its return makes the function dominated. -/
theorem Builds.dominated {code : Code} (builds : Builds exit before code after)
    (start : before.point = ⟨0, 0⟩) (closed : code.Closed []) (goesOn : code.leaves = false) :
    Block.Dominated (after.ended (.ret none)).blocks := by
  have ready := builds.ready goesOn
  have since := Since.ended ready (.ret none)
  have ends := ready.ends (.ret none)
  have lays := since.extended.lays builds.lays
  rw [start] at lays
  refine (Block.dominated_iff lays ?_ ?_).mpr closed
  · rintro run rest target name _ ⟨count, steps⟩ uses
    rcases ends.steps steps with ⟨rfl, rfl⟩ | ⟨_, _, _, _, member, _⟩
    · cases ends.uses uses
    · cases member
  · intro run last rest target name _ found
    rw [since.labelled.position?_exit] at found
    cases found

/-- Code that goes from the start of a function to its return makes the function complete. -/
theorem Builds.complete {code : Code} {function other : IR.Function}
    (builds : Builds exit before code after) (start : before.blocks = [{ label := label }])
    (first : before.place.block = 0) (isLabel : IsLabel label)
    (stationary : Stationary ⟨[], function.parameterValues⟩ code)
    (found : (after.ended (.ret none)).function? = some other) (same : head other = head function)
    (guarded : (after.ended (.ret none)).All Guarded) : Complete other := by
  have held := builds.comprises [] [] [] [] (by
    rw [start, first]
    exact .single isLabel)
  rw [Draft.open, stationary.goesOn, stationary.exits] at held
  have holds := (builds.ready stationary.goesOn).comprises_ended held (.ret none)
    (by simp [IR.Terminator.targets])
  have parameters : other.parameterValues = function.parameterValues := by
    have heads := congrArg IR.Function.parameterValues same
    exact heads
  unfold Draft.All Draft.blocks at guarded
  unfold Draft.blocks at holds
  rw [found] at holds guarded
  apply holds.complete (by rintro _ ⟨⟩) _ _ guarded
  · rw [parameters]
    intro value member
    exact stationary.uses.operands value (by simpa [IR.Terminator.operands] using member)
  · have none : slots code.instructions = [] := stationary.uses.slots
    simp [none]

theorem ready_of_single {draft : Draft} (valid : draft.Valid)
    (blocks : draft.blocks = [{ label := label }]) (block : draft.place.block = 0)
    (plain : ∀ base ∈ labelBases, ∀ number, numbered base number ≠ label)
    (exitPlain : ∀ base ∈ labelBases, ∀ number, numbered base number ≠ exit)
    (differs : label ≠ exit) : Ready exit draft ∧ draft.point = ⟨0, 0⟩ := by
  have found : draft.blocks[draft.place.block]? = some { label := label } := by
    rw [blocks, block]
    rfl
  refine ⟨⟨⟨valid, fun base isBase number _ other member => ?_, fun other member => ?_,
    exitPlain⟩, _, found, rfl⟩, ?_⟩
  · rw [blocks, List.mem_singleton] at member
    rw [member]
    exact (plain base isBase number).symm
  · rw [blocks, List.mem_singleton] at member
    rw [member]
    exact differs
  · rw [Draft.point_of_open found, block]
    rfl

/-- A label without digits is no fresh label if it is no base of one. -/
theorem numbered_ne_of_plain (plain : label.toList.all (fun c => !c.isDigit) = true)
    (noBase : label ∉ labelBases) :
    ∀ base ∈ labelBases, ∀ number, numbered base number ≠ label := by
  intro base isBase number same
  have first : numbered label 0 = label := rfl
  obtain ⟨rfl, _⟩ := numbered_injective (labelBases_plain base isBase) (plain_of_all plain)
    (same.trans first.symm)
  exact noBase isBase

/-- The draft in which the code of an added function is written. -/
def Draft.inAdded (draft : Draft) (function : IR.Function) : Draft :=
  Draft.mapBlocks { draft with
    functions := draft.functions ++ [function]
    place := ⟨draft.functions.length, 0⟩ } (· ++ [{ label := "entry" }])

section Added

variable {draft : Draft} {function : IR.Function}

theorem Draft.functions_inAdded (inside : index < draft.functions.length) :
    (draft.inAdded function).functions[index]? = draft.functions[index]? := by
  unfold Draft.inAdded
  rw [Draft.functions_mapBlocks_of_ne (Nat.ne_of_lt inside)]
  exact List.getElem?_append_left inside

theorem Draft.length_inAdded :
    (draft.inAdded function).functions.length = draft.functions.length + 1 := by
  unfold Draft.inAdded
  rw [Draft.length_mapBlocks]
  exact List.length_append

theorem Draft.function?_inAdded : (draft.inAdded function).function? =
    some { function with blocks := function.blocks ++ [{ label := "entry" }] } := by
  unfold Draft.inAdded
  rw [Draft.function?_mapBlocks]
  unfold Draft.function?
  simp

theorem blocks_inAdded (declared : function.blocks = []) :
    (draft.inAdded function).blocks = [{ label := "entry" }] := by
  unfold Draft.blocks
  rw [Draft.function?_inAdded, declared]
  rfl

private theorem ready_inAdded (draft : Draft) (declared : function.blocks = []) :
    Ready exitLabel (draft.inAdded function) ∧ (draft.inAdded function).point = ⟨0, 0⟩ := by
  have valid : (draft.inAdded function).Valid := by
    unfold Draft.Valid
    rw [Draft.length_inAdded]
    exact Nat.lt_succ_self _
  exact ready_of_single valid (blocks_inAdded declared) rfl
    (numbered_ne_of_plain (by decide) (by decide))
    (numbered_ne_of_plain (by decide) (by decide)) (by decide)

/-- A routine that copies an entity is added as a finished function. -/
theorem grows_of_routine (body : Emit Unit) (valid : draft.Valid) (declared : function.blocks = [])
    (isCopier : IsCopier function.name)
    (structured : Structured exitLabel ⟨[], function.parameterValues⟩ body) :
    Grows draft [] { (body (draft.inAdded function)).2.ended (.ret none) with
      place := draft.place } := by
  obtain ⟨ready, start⟩ := ready_inAdded draft declared
  obtain ⟨code, builds, outside, stationary⟩ := structured _ ready
  have dominated := builds.dominated start stationary.closed stationary.goesOn
  have stays : Stays (body (draft.inAdded function)).2
    ((body (draft.inAdded function)).2.ended (.ret none)) := Local.terminate _ _
  have whole := outside.trans (.of_stays stays) builds.since.function ready.labelled.valid
  have length := whole.length
  rw [Draft.length_inAdded] at length
  have kept : ∀ index : Nat, index < draft.functions.length →
      ((body (draft.inAdded function)).2.ended (.ret none)).functions[index]? =
        draft.functions[index]? := by
    intro index inside
    rw [← Draft.functions_inAdded inside]
    exact whole.others index (Nat.ne_of_lt inside) (by rw [Draft.length_inAdded]; omega)
  refine ⟨⟨fun index _ inside => kept index inside, fun index other outside' found => ?_,
    by exact Nat.le_of_succ_le length, builds.since.temporaries⟩, rfl, ?_, by simp,
    builds.since.labels,
    fun _ => ((builds.ready stationary.goesOn).strays_ended (.ret none)).trans builds.strays⟩
  · by_cases own : index = draft.functions.length
    · subst own
      have here : ((body (draft.inAdded function)).2.ended (.ret none)).function? = some other := by
        unfold Draft.function?
        rw [stays.function, builds.since.function]
        exact found
      have sameHead := whole.head
      rw [here, Draft.function?_inAdded] at sameHead
      have sameHead : head other = head function := Option.some.inj sameHead
      have name : other.name = function.name := by
        have heads := congrArg IR.Function.name sameHead
        exact heads
      unfold Draft.blocks at dominated
      rw [here] at dominated
      have started : (draft.inAdded function).All Guarded := by
        intro block member
        rw [blocks_inAdded declared, List.mem_singleton] at member
        rw [member]
        exact .nil
      exact .inr ⟨name ▸ isCopier, dominated, builds.complete (blocks_inAdded declared) rfl
        (.inl (by decide)) stationary here sameHead (whole.guarded started)⟩
    · exact whole.added index other (by rw [Draft.length_inAdded]; omega) found
  · have same :
        ((body (draft.inAdded function)).2.ended (.ret none)).functions[draft.place.function]? =
          draft.functions[draft.place.function]? := kept _ valid
    unfold Draft.function?
    rw [same]
    simp [appended_nil]

end Added

namespace Emits

mutual

theorem copier (type : Ty) : Codeless (Emit.copier type) := by
  cases type with
  | entity header fields =>
    rw [Emit.copier]
    refine .bind (.functionIndex? _) fun found => ?_
    cases found with
    | some index => exact .callee index
    | none =>
      refine .bind (.valueLayout _) fun record => ?_
      intro draft valid
      refine grows_of_routine (do
        Emit.copyValues (.parameter 0 "dst" (.pointer record))
          (.parameter 1 "src" (.pointer record)) record (.int64 1)
        Emit.copierFields (.entity header fields) _ (.parameter 0 "dst" (.pointer record))
          record 0 fields) valid rfl ⟨header.name, rfl⟩ ?_
      refine .bind (copyValues record ?_ ?_ (.constant rfl)) fun known₃ _ subset₃ _ => ?_
      · exact List.mem_cons_self
      · exact List.mem_cons_of_mem _ List.mem_cons_self
      · have isKnown : Known known₃ (.parameter 0 "dst" (.pointer record)) :=
          subset₃.2 List.mem_cons_self
        exact copierFields known₃ _ _ _ record isKnown 0 fields
  | bool => exact .pure _
  | real => exact .pure _
  | int => exact .pure _
  | char => exact .pure _
  | self => exact .pure _
  | list element => exact .pure _

theorem copierFields (known : Locals) (whole : Ty) (own : IR.Callee)
    (target : IR.Value) (record : IR.Ty) (isKnown : Known known target) (index : Nat)
    (fields : List (String × Ty)) :
    Structured exitLabel known (Emit.copierFields whole own target record index fields) := by
  cases fields with
  | nil =>
    have nothing : Emits known (Pure.pure ()) fun _ _ => True := .pure trivial
    exact .of_emits nothing
  | cons field rest =>
    obtain ⟨name, type⟩ := field
    rw [Emit.copierFields]
    have later := copierFields known whole own target record isKnown (index + 1) rest
    dsimp only
    split
    · refine .seq (.copyUnlessNull isKnown fun known₁ storage field storageKnown fieldKnown => ?_)
        later
      cases type with
      | list element =>
        exact overwriteList _ (fun _ type _ isKnown => heapAllocate type isKnown) storageKnown
          fieldKnown
      | self => exact performCall (by simpa using ⟨storageKnown, fieldKnown⟩)
      | _ =>
        refine .bind (.codeless (copier _)) fun known₂ routine subset₂ _ => performCall ?_
        simpa using ⟨storageKnown.mono subset₂, fieldKnown.mono subset₂⟩
    · exact later

end

theorem overwrite {known : Locals} {target source : IR.Value} (type : Ty)
    (knownTarget : Known known target) (knownSource : Known known source) :
    Emits known (Emit.overwrite target source type) fun _ _ => True := by
  unfold Emit.overwrite
  cases type with
  | list element =>
    exact overwriteList element (fun _ type _ isKnown => stackAllocate type isKnown) knownTarget
      knownSource
  | entity header fields =>
    refine .bind (.codeless (copier _)) fun known₁ routine subset₁ _ => performCall ?_
    simpa using ⟨knownTarget.mono subset₁, knownSource.mono subset₁⟩
  | _ => exact .pure trivial

theorem copyOf {known : Locals} {source : IR.Value} (type : Ty)
    (isKnown : Known known source) : Emits known (Emit.copyOf source type) Known := by
  refine .bind (valueLayout type) fun known₁ record subset₁ _ => ?_
  refine .bind (alloca record (by simp)) fun known₂ target subset₂ targetKnown => ?_
  refine .bind (overwrite type targetKnown ((isKnown.mono subset₁).mono subset₂))
    fun known₃ _ subset₃ _ => ?_
  exact .pure (targetKnown.mono subset₃)

end Emits

end Kronk.Lowering
