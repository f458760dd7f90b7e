import Kronk.Proofs.Labels

/-!
# Straight code

Most emissions append instructions to the current block and touch nothing else of the current
function.  `Emits` says that of an emission, and that what it appends uses only parameters and
results that are known before or defined on the way.
-/

namespace Kronk.IR

/-- If the name is a temporary, its number is in a range. -/
def LocalName.IsWithin (least bound : Nat) (name : LocalName) : Prop :=
  ∀ index, name = .temporary index → least ≤ index ∧ index < bound

variable {name : LocalName}

theorem LocalName.IsWithin.mono {least bound less more : Nat} (within : name.IsWithin least bound)
    (lower : less ≤ least) (upper : bound ≤ more) : name.IsWithin less more := by
  intro index same
  obtain ⟨above, below⟩ := within index same
  exact ⟨Nat.le_trans lower above, Nat.lt_of_lt_of_le below upper⟩

def operands (code : List Instruction) : List Value :=
  code.flatMap fun instruction => instruction.operation.operands

/-- The results that code uses without defining them first. -/
def external : List Instruction → List LocalName
  | [] => []
  | instruction :: rest =>
    instruction.uses ++ (external rest).filter (fun name => instruction.result != some name)

theorem mem_external_append {first second : List Instruction} : name ∈ external (first ++ second) ↔
      name ∈ external first ∨ name ∈ external second ∧ name ∉ results first := by
  induction first with
  | nil => simp [external]
  | cons instruction rest ih =>
    have defined : name ∈ results (instruction :: rest) ↔
        instruction.result = some name ∨ name ∈ results rest := by
      simp only [results, List.mem_filterMap, List.mem_cons, exists_eq_or_imp]
    simp only [List.cons_append, external, List.mem_append, List.mem_filter, ih,
      defined, bne_iff_ne, ne_eq]
    constructor
    · rintro (used | ⟨inside | ⟨later, fresh⟩, differs⟩)
      · exact .inl (.inl used)
      · exact .inl (.inr ⟨inside, differs⟩)
      · exact .inr ⟨later, not_or.mpr ⟨differs, fresh⟩⟩
    · rintro ((used | ⟨inside, differs⟩) | ⟨later, fresh⟩)
      · exact .inl used
      · exact .inr ⟨.inl inside, differs⟩
      · exact .inr ⟨.inr ⟨later, (not_or.mp fresh).2⟩, (not_or.mp fresh).1⟩

theorem reaches_straight_cases {code run : List Instruction} :
    (Code.straight code).Reaches run name ↔
      ∃ instruction later, code = run ++ instruction :: later ∧ name ∈ instruction.uses := by
  constructor
  · intro reaches
    cases reaches with
    | straight uses => exact ⟨_, _, rfl, uses⟩
  · rintro ⟨instruction, later, rfl, uses⟩
    exact .straight uses

/-- Every use that structured code reaches is known before or defined on the way. -/
def Code.Closed (known : List LocalName) (code : Code) : Prop :=
  ∀ run name, code.Reaches run name → name ∈ known ++ results run

/-- Straight code is closed exactly if what it needs from outside is known. -/
theorem closed_straight_iff {known : List LocalName} {code : List Instruction} :
    (Code.straight code).Closed known ↔ ∀ name ∈ external code, name ∈ known := by
  induction code generalizing known with
  | nil => simp [Code.Closed, reaches_straight_cases, external]
  | cons instruction rest ih =>
    have here : results [instruction] = instruction.result.toList := by
      cases same : instruction.result <;> simp [results, same]
    constructor
    · intro closed name member
      simp only [external, List.mem_append, List.mem_filter, bne_iff_ne, ne_eq] at member
      rcases member with used | ⟨inside, differs⟩
      · simpa using closed [] name (reaches_straight_cases.mpr ⟨instruction, rest, rfl, used⟩)
      · have later : name ∈ known ++ results [instruction] := by
          refine ih.mp (fun run name reaches => ?_) name inside
          obtain ⟨other, more, rfl, uses⟩ := reaches_straight_cases.mp reaches
          rw [List.append_assoc, ← results_append]
          exact closed _ name (reaches_straight_cases.mpr ⟨other, more, rfl, uses⟩)
        rw [here, List.mem_append] at later
        exact later.resolve_right fun defined => differs (by simpa using defined)
    · intro needed run name reaches
      obtain ⟨other, more, split, uses⟩ := reaches_straight_cases.mp reaches
      cases run with
      | nil =>
        cases split
        rw [results_nil, List.append_nil]
        exact needed name (List.mem_append_left _ uses)
      | cons head tail =>
        cases split
        rw [← List.singleton_append, results_append, ← List.append_assoc]
        refine ih.mpr (fun name member => ?_) tail name
          (reaches_straight_cases.mpr ⟨other, more, rfl, uses⟩)
        rw [here, List.mem_append]
        by_cases defined : instruction.result = some name
        · exact .inr (by simp [defined])
        · refine .inl (needed name (List.mem_append_right _ ?_))
          exact List.mem_filter.mpr ⟨member, by simpa using defined⟩

namespace Code.Closed

variable {known : List LocalName}

theorem mono {more : List LocalName} {code : Code} (closed : code.Closed known)
    (subset : known ⊆ more) : code.Closed more := by
  intro run name reaches
  rcases List.mem_append.mp (closed run name reaches) with before | defined
  · exact List.mem_append_left _ (subset before)
  · exact List.mem_append_right _ defined

theorem seq_iff {first second : Code} : (Code.seq first second).Closed known ↔
      first.Closed known ∧ ∀ run, first.Runs run → second.Closed (known ++ results run) := by
  constructor
  · intro closed
    refine ⟨fun run name reaches => closed run name (.first reaches), ?_⟩
    intro run runs later name reaches
    rw [List.append_assoc, ← results_append]
    exact closed _ name (.second runs reaches)
  · rintro ⟨former, latter⟩ run name reaches
    cases reaches with
    | first reaches => exact former run name reaches
    | second runs reaches =>
      rw [results_append, ← List.append_assoc]
      exact latter _ runs _ name reaches

variable {condition : Value}

theorem branch_iff {consequent alternative : Code} :
    (Code.branch condition consequent alternative).Closed known ↔
      (∀ name, condition.resultName? = some name → name ∈ known) ∧
        consequent.Closed known ∧ alternative.Closed known := by
  constructor
  · intro closed
    refine ⟨fun name same => ?_, fun run name reaches => closed run name (.consequent reaches),
      fun run name reaches => closed run name (.alternative reaches)⟩
    simpa using closed [] name (.condition same)
  · rintro ⟨isKnown, first, second⟩ run name reaches
    cases reaches with
    | condition same => exact List.mem_append_left _ (isKnown name same)
    | consequent reaches => exact first run name reaches
    | alternative reaches => exact second run name reaches

theorem skip_iff {body : Code} : (Code.skip condition body).Closed known ↔
      (∀ name, condition.resultName? = some name → name ∈ known) ∧ body.Closed known := by
  constructor
  · intro closed
    refine ⟨fun name same => ?_, fun run name reaches => closed run name (.skip reaches)⟩
    simpa using closed [] name (.skipCondition same)
  · rintro ⟨isKnown, closed⟩ run name reaches
    cases reaches with
    | skipCondition same => exact List.mem_append_left _ (isKnown name same)
    | skip reaches => exact closed run name reaches

/-- A loop is closed if its first round is: later rounds know more. -/
theorem loop_iff {test : List Instruction} {body : Code} :
    (Code.loop test condition body).Closed known ↔ (Code.straight test).Closed known ∧
        (∀ name, condition.resultName? = some name → name ∈ known ++ results test) ∧
          body.Closed (known ++ results test) := by
  constructor
  · intro closed
    refine ⟨fun run name reaches => closed run name (.test reaches),
      fun name same => closed test name (.testCondition same), fun run name reaches => ?_⟩
    rw [List.append_assoc, ← results_append]
    exact closed _ name (.body reaches)
  · rintro ⟨tested, isKnown, closed⟩ run name reaches
    generalize whole : Code.loop test condition body = code at reaches
    induction reaches generalizing test condition body with
    | test reaches _ =>
      cases whole
      exact tested _ _ reaches
    | testCondition same =>
      cases whole
      exact isKnown _ same
    | body reaches _ =>
      cases whole
      rw [results_append, ← List.append_assoc]
      exact closed _ _ reaches
    | again _ _ ih =>
      cases whole
      rcases List.mem_append.mp (ih tested isKnown closed rfl) with known | later
      · exact List.mem_append_left _ known
      · rw [results_append]
        exact List.mem_append_right _ (List.mem_append_right _ later)
    | _ => cases whole

end Code.Closed

end Kronk.IR

namespace Kronk.Lowering

open IR (results external)

variable {operation : IR.Operation} {size target source : IR.Value}

/-! ## Locals -/

/-- The results and the parameters that code may use. -/
structure Locals where
  results : List IR.LocalName := []
  parameters : List IR.Value := []

namespace Locals

instance : HAppend Locals (List IR.LocalName) Locals where
  hAppend known more := { known with results := known.results ++ more }

instance : HasSubset Locals where
  Subset known more := known.results ⊆ more.results ∧ known.parameters ⊆ more.parameters

variable {known middle more : Locals}

@[simp] theorem results_append (known : Locals) (defined : List IR.LocalName) :
    (known ++ defined).results = known.results ++ defined := rfl

@[simp] theorem append_nil (known : Locals) : known ++ ([] : List IR.LocalName) = known := by
  change { known with results := known.results ++ [] } = known
  rw [List.append_nil]

theorem append_assoc (known : Locals) (first second : List IR.LocalName) :
    known ++ first ++ second = known ++ (first ++ second) := by
  change { known with results := known.results ++ first ++ second } = _
  rw [List.append_assoc]
  rfl

theorem subset_refl (known : Locals) : known ⊆ known :=
  ⟨List.Subset.refl _, List.Subset.refl _⟩

theorem subset_trans (first : known ⊆ middle) (second : middle ⊆ more) : known ⊆ more :=
  ⟨List.Subset.trans first.1 second.1, List.Subset.trans first.2 second.2⟩

theorem subset_append (known : Locals) (defined : List IR.LocalName) : known ⊆ known ++ defined :=
  ⟨List.subset_append_left _ _, List.Subset.refl _⟩

theorem append_subset (subset : known ⊆ more) (defined : List IR.LocalName) :
    known ++ defined ⊆ more ++ defined := by
  refine ⟨fun name member => ?_, subset.2⟩
  rcases List.mem_append.mp member with old | new
  · exact List.mem_append_left _ (subset.1 old)
  · exact List.mem_append_right _ new

end Locals

/-- An operand is a constant, a known result or a known parameter. -/
def Known (known : Locals) : IR.Value → Prop
  | .result name _ => name ∈ known.results
  | .parameter position name type => .parameter position name type ∈ known.parameters
  | _ => True

namespace Known

variable {known more : Locals} {value : IR.Value}

theorem mono (isKnown : Known known value) (subset : known ⊆ more) : Known more value := by
  cases value with
  | result name type => exact subset.1 isKnown
  | parameter position name type => exact subset.2 isKnown
  | _ => trivial

theorem constant (isConstant : value.isLocal = false) : Known known value := by
  cases value with
  | result name type => cases isConstant
  | parameter position name type => cases isConstant
  | _ => trivial

theorem result (isKnown : Known known value) (name : IR.LocalName)
    (same : value.resultName? = some name) : name ∈ known.results := by
  cases value with
  | result other type =>
    cases same
    exact isKnown
  | _ => cases same

end Known

/-- What code uses is known before or defined on the way, and it defines temporaries. -/
structure Supplied (known : Locals) (code : List IR.Instruction) : Prop where
  results : ∀ name ∈ external code, name ∈ known.results
  operands : ∀ value ∈ IR.operands code, Known (known ++ IR.results code) value
  plain : ∀ name ∈ IR.results code, ∃ index, name = .temporary index

structure Needs (known : Locals) (code : List IR.Instruction) : Prop extends
  Supplied known code where
  guarded : Guarded code

namespace Supplied

variable {known : Locals} {code : List IR.Instruction}

theorem append {later : List IR.Instruction} (first : Supplied known code)
    (second : Supplied (known ++ IR.results code) later) : Supplied known (code ++ later) where
  results name member := by
    rcases IR.mem_external_append.mp member with here | ⟨there, undefined⟩
    · exact first.results name here
    · exact (List.mem_append.mp (second.results name there)).resolve_right undefined
  operands value member := by
    rw [IR.results_append, ← Locals.append_assoc]
    unfold IR.operands at member
    rw [List.flatMap_append, List.mem_append] at member
    rcases member with here | there
    · exact (first.operands value here).mono (Locals.subset_append _ _)
    · exact second.operands value there
  plain name member := by
    rw [IR.results_append, List.mem_append] at member
    rcases member with here | there
    · exact first.plain name here
    · exact second.plain name there

theorem instruction {instruction : IR.Instruction}
    (operands : ∀ value ∈ instruction.operation.operands, Known known value)
    (plain : ∀ name, instruction.result = some name → ∃ index, name = .temporary index) :
    Supplied known [instruction] where
  results name member := by
    simp only [external, IR.Instruction.uses, IR.resultNames, List.filter_nil, List.append_nil,
      List.mem_filterMap] at member
    obtain ⟨value, isOperand, same⟩ := member
    exact (operands value isOperand).result name same
  operands value member := by
    rw [IR.operands, List.flatMap_singleton] at member
    exact (operands value member).mono (Locals.subset_append _ _)
  plain name member := plain name (by simpa [IR.results] using member)

end Supplied

namespace Needs

variable {known : Locals} {code : List IR.Instruction}

theorem nil : Needs known [] :=
  ⟨⟨by simp [external], by simp [IR.operands], by simp⟩, .nil⟩

theorem append {later : List IR.Instruction} (first : Needs known code)
    (second : Needs (known ++ IR.results code) later) : Needs known (code ++ later) :=
  ⟨first.toSupplied.append second.toSupplied, first.guarded.append second.guarded⟩

end Needs

def slots (code : List IR.Instruction) : List String :=
  (results code).filterMap fun
    | .named name => some name
    | .temporary _ => none

/-- What code with its conditions uses is known or defined somewhere in it, and it defines
temporaries. -/
structure Uses (known : Locals) (code : List IR.Instruction) (conditions : List IR.Value) :
    Prop where
  operands : ∀ value ∈ IR.operands code ++ conditions, Known (known ++ IR.results code) value
  plain : ∀ name ∈ IR.results code, ∃ index, name = .temporary index

theorem Needs.uses {known : Locals} {code : List IR.Instruction} (needs : Needs known code) :
    Uses known code [] where
  operands := by
    rw [List.append_nil]
    exact needs.operands
  plain := needs.plain

namespace Uses

variable {known more : Locals} {code later : List IR.Instruction}
  {conditions others : List IR.Value}

theorem mono (uses : Uses known code conditions) (subset : known ⊆ more) :
    Uses more code conditions where
  operands value member := (uses.operands value member).mono (Locals.append_subset subset _)
  plain := uses.plain

/-- Code, and then other code that knows what was defined. -/
theorem append (first : Uses known code conditions)
    (second : Uses (known ++ IR.results code) later others) :
    Uses known (code ++ later) (conditions ++ others) where
  operands value member := by
    rw [IR.results_append, ← Locals.append_assoc]
    simp only [IR.operands, List.flatMap_append, List.mem_append] at member
    rcases member with (here | there) | here | there
    · exact (first.operands value (List.mem_append_left _ here)).mono (Locals.subset_append _ _)
    · exact second.operands value (List.mem_append_left _ there)
    · exact (first.operands value (List.mem_append_right _ here)).mono (Locals.subset_append _ _)
    · exact second.operands value (List.mem_append_right _ there)
  plain name member := by
    rw [IR.results_append, List.mem_append] at member
    rcases member with here | there
    · exact first.plain name here
    · exact second.plain name there

theorem slots (uses : Uses known code conditions) : slots code = [] := by
  unfold Lowering.slots
  rw [List.filterMap_eq_nil_iff]
  intro name member
  obtain ⟨index, rfl⟩ := uses.plain name member
  rfl

/-- Code that begins with a condition. -/
theorem condition {holds : IR.Value} (isKnown : Known known holds)
    (uses : Uses known code conditions) : Uses known code (holds :: conditions) where
  operands value member := by
    rcases List.mem_append.mp member with inside | isCondition
    · exact uses.operands value (List.mem_append_left _ inside)
    · rcases List.mem_cons.mp isCondition with rfl | later
      · exact isKnown.mono (Locals.subset_append _ _)
      · exact uses.operands value (List.mem_append_right _ later)
  plain := uses.plain

end Uses

/-! ## Finished functions -/

/-- The results of the instructions of a function, and its parameters. -/
def Locals.ofFunction (function : IR.Function) : Locals :=
  ⟨IR.results (function.blocks.flatMap IR.Block.instructions), function.parameterValues⟩

/-- Every block is ended, control goes from block to block under distinct labels, and every local
that is used belongs to the function. -/
structure WellFormed (function : IR.Function) : Prop where
  distinct : (function.blocks.map IR.Block.label).Nodup
  ended : ∀ block ∈ function.blocks, ∃ terminator, block.terminator = some terminator ∧
    ∀ label ∈ terminator.targets, ∃ target ∈ function.blocks, target.label = label
  operands : ∀ block ∈ function.blocks, ∀ value ∈ IR.operands block.instructions,
    Known (.ofFunction function) value
  conditions : ∀ block ∈ function.blocks, ∀ terminator ∈ block.terminator,
    ∀ value ∈ terminator.operands, Known (.ofFunction function) value

def fixedLabels : List String :=
  ["ProgramEntry", "ProgramExit", "FunctionEntry", "FunctionExit", "entry"]

/-- A label is one of a few, or it was made of a base and a number. -/
def IsLabel (label : String) : Prop :=
  label ∈ fixedLabels ∨ ∃ base ∈ labelBases, ∃ number, label = numbered base number

/-- The name of a routine that copies an entity. -/
def IsCopier (name : String) : Prop := ∃ entity, name = "copy." ++ entity

/-- A well-formed function with guarded code and with the labels and the named result that lowering
makes. -/
structure Complete (function : IR.Function) : Prop extends WellFormed function where
  guarded : ∀ block ∈ function.blocks, Guarded block.instructions
  labels : ∀ block ∈ function.blocks, IsLabel block.label
  named : slots (function.blocks.flatMap IR.Block.instructions) ⊆ ["ReturnValue"] ∧
    (slots (function.blocks.flatMap IR.Block.instructions)).Nodup

/-- A function that straight emissions may add: a declaration, or a routine that copies an entity
and is complete and dominated. -/
def IsFinished (function : IR.Function) : Prop :=
  function.blocks = [] ∨
    IsCopier function.name ∧ IR.Block.Dominated function.blocks ∧ Complete function

/-! ## Growth of the current block -/

def appended (position : Nat) (code : List IR.Instruction) (blocks : List IR.Block) :
    List IR.Block :=
  blocks.modify position fun block => { block with instructions := block.instructions ++ code }

theorem appended_nil (position : Nat) (blocks : List IR.Block) :
    appended position [] blocks = blocks := by
  unfold appended
  simp only [List.append_nil]
  exact List.modify_id position blocks

private theorem appended_append (position : Nat) (first second : List IR.Instruction)
    (blocks : List IR.Block) : appended position second (appended position first blocks) =
      appended position (first ++ second) blocks := by
  unfold appended
  rw [List.modify_modify_eq]
  congr 1
  funext block
  simp

/-- Besides the current function of a draft, functions may have been added, and they are
finished. -/
structure Gains (before after : Draft) : Prop where
  others : ∀ index : Nat, index ≠ before.place.function → index < before.functions.length →
    after.functions[index]? = before.functions[index]?
  added : ∀ (index : Nat) (function : IR.Function), before.functions.length ≤ index →
    after.functions[index]? = some function → IsFinished function
  length : before.functions.length ≤ after.functions.length
  temporaries : before.temporaries ≤ after.temporaries

theorem Gains.trans {before middle after : Draft} (former : Gains before middle)
    (latter : Gains middle after) (place : middle.place.function = before.place.function)
    (valid : before.Valid) : Gains before after where
  others index other inside := by
    rw [latter.others index (place ▸ other) (Nat.lt_of_lt_of_le inside former.length),
      former.others index other inside]
  added index function outside found := by
    by_cases inside : index < middle.functions.length
    · rw [latter.others index ?_ inside] at found
      · exact former.added index function outside found
      · rw [place]
        exact Nat.ne_of_gt (Nat.lt_of_lt_of_le valid outside)
    · exact latter.added index function (Nat.le_of_not_lt inside) found
  length := Nat.le_trans former.length latter.length
  temporaries := Nat.le_trans former.temporaries latter.temporaries

/-- A draft grew by code at the end of the current block. -/
structure Grows (before : Draft) (code : List IR.Instruction) (after : Draft) : Prop
    extends Gains before after where
  place : after.place = before.place
  current : after.function? = before.function?.map fun function =>
    { function with blocks := appended before.place.block code function.blocks }
  fresh : ∀ name ∈ results code, name.IsWithin before.temporaries after.temporaries
  labels : ∀ base, before.count base ≤ after.count base
  strays : before.hasOpenBlock = true → after.strays = before.strays

namespace Grows

variable {before after : Draft} {code : List IR.Instruction}

theorem valid (grows : Grows before code after) (valid : before.Valid) : after.Valid := by
  unfold Draft.Valid
  rw [grows.place]
  exact Nat.lt_of_lt_of_le valid grows.length

theorem blocks (grows : Grows before code after) (valid : before.Valid) :
    after.blocks = appended before.place.block code before.blocks := by
  obtain ⟨function, found, same⟩ := valid.found
  rw [Draft.blocks, grows.current, found, same]
  rfl

theorem all {good : List IR.Instruction → Prop} (grows : Grows before code after)
    (keeps : ∀ earlier, good earlier → good (earlier ++ code)) (all : before.All good) :
    after.All good := by
  unfold Draft.All Draft.blocks at all ⊢
  rw [grows.current]
  cases found : before.function? with
  | none => exact nofun
  | some function =>
    rw [found] at all
    exact good_modify (fun block => keeps block.instructions) _ all

theorem hasOpenBlock (grows : Grows before code after) (isOpen : before.hasOpenBlock = true) :
    after.hasOpenBlock = true := by
  unfold Draft.hasOpenBlock Draft.block? at isOpen ⊢
  rw [grows.current, grows.place]
  cases found : before.function? with
  | none =>
    rw [found] at isOpen
    cases isOpen
  | some function =>
    rw [found] at isOpen
    change (appended before.place.block code function.blocks)[before.place.block]?.any _ = true
    unfold appended
    rw [List.getElem?_modify_eq, Option.map_eq_map, Option.any_map]
    exact isOpen

theorem trans {middle : Draft} {first second : List IR.Instruction}
    (former : Grows before first middle) (latter : Grows middle second after)
    (valid : before.Valid) : Grows before (first ++ second) after where
  place := latter.place.trans former.place
  current := by
    rw [latter.current, former.current, former.place, Option.map_map]
    congr 1
    funext function
    simp [appended_append]
  toGains := former.toGains.trans latter.toGains (by rw [former.place]) valid
  fresh name member := by
    rw [IR.results_append, List.mem_append] at member
    rcases member with member | member
    · exact (former.fresh name member).mono (Nat.le_refl _) latter.temporaries
    · exact (latter.fresh name member).mono former.temporaries (Nat.le_refl _)
  labels base := Nat.le_trans (former.labels base) (latter.labels base)
  strays isOpen := (latter.strays (former.hasOpenBlock isOpen)).trans (former.strays isOpen)

/-- A change that touches neither functions nor labels nor temporaries. -/
theorem of_same (functions : after.functions = before.functions)
    (place : after.place = before.place) (temporaries : after.temporaries = before.temporaries)
    (labels : after.labels = before.labels) (strays : after.strays = before.strays) :
    Grows before [] after where
  place := place
  current := by
    unfold Draft.function?
    rw [functions, place]
    simp [appended_nil]
  others _ _ _ := by rw [functions]
  added index function outside found := by
    rw [functions, List.getElem?_eq_none outside] at found
    cases found
  length := Nat.le_of_eq (by rw [functions])
  temporaries := Nat.le_of_eq temporaries.symm
  fresh name member := by cases member
  labels base := by
    unfold Draft.count
    exact Nat.le_of_eq (by rw [labels])
  strays _ := strays

theorem instruction (instruction : IR.Instruction) {temporaries : Nat}
    (grows : before.temporaries ≤ temporaries)
    (fresh : ∀ name, instruction.result = some name →
      name.IsWithin before.temporaries temporaries) :
    Grows before [instruction] (Draft.mapBlocks (Draft.noted { before with temporaries })
      (appended before.place.block [instruction])) where
  place := rfl
  current := Draft.function?_mapBlocks
  others _ other _ := Draft.functions_mapBlocks_of_ne other
  added index function outside found := by
    have inside := (List.getElem?_eq_some_iff.mp found).1
    rw [Draft.length_mapBlocks] at inside
    exact absurd inside (Nat.not_lt.mpr outside)
  length := Nat.le_of_eq Draft.length_mapBlocks.symm
  temporaries := grows
  fresh name member := fresh name (by simpa [results] using member)
  labels _ := Nat.le_refl _
  strays isOpen := by
    change before.strays + (if before.hasOpenBlock then 0 else 1) = _
    rw [isOpen]
    rfl

theorem declaration {function : IR.Function} (declares : function.blocks = [])
    (valid : before.Valid) :
    Grows before [] { before with functions := before.functions ++ [function] } where
  place := rfl
  current := by
    unfold Draft.function?
    simp [List.getElem?_append_left valid, appended_nil]
  others index _ inside := List.getElem?_append_left inside
  added index other outside found := by
    rw [List.getElem?_append_right outside] at found
    obtain rfl := List.mem_singleton.mp (List.mem_of_getElem? found)
    exact .inl declares
  length := by simp
  temporaries := Nat.le_refl _
  fresh name member := by cases member
  labels _ := Nat.le_refl _
  strays _ := rfl

end Grows

/-! ## Closed emissions -/

/-- A constant text is no result, and only the texts of the draft change. -/
theorem constantText_cases (content : String) (draft : Draft) :
    (∃ label length, (Emit.constantText content draft).1 = .text label length) ∧
      ∃ texts, (Emit.constantText content draft).2 = { draft with texts } := by
  unfold Emit.constantText
  simp only [bind, StateT.bind, get, getThe, MonadStateOf.get, StateT.get, pure]
  cases draft.texts.findIdx? (· == content) with
  | some position => exact ⟨⟨_, _, rfl⟩, draft.texts, rfl⟩
  | none => exact ⟨⟨_, _, rfl⟩, draft.texts ++ [content], rfl⟩

/-- A function is found by its name, or it is added. -/
theorem Emit.functionIndex?_apply (name : String) (draft : Draft) : Emit.functionIndex? name draft =
    (draft.functions.findIdx? (fun function => function.name == name), draft) := rfl

theorem declare_cases (function : IR.Function) (draft : Draft) :
    (∃ found ∈ draft.functions, found.name = function.name ∧
      (do Emit.callee (← Emit.declare function)) draft = (found.callee, draft)) ∨
    (do Emit.callee (← Emit.declare function)) draft =
      (function.callee, { draft with functions := draft.functions ++ [function] }) := by
  change (∃ found ∈ draft.functions, found.name = function.name ∧
    Emit.callee (Emit.declare function draft).1 (Emit.declare function draft).2 = _) ∨
    Emit.callee (Emit.declare function draft).1 (Emit.declare function draft).2 = _
  unfold Emit.declare
  simp only [bind, StateT.bind, Emit.functionIndex?_apply]
  cases found : draft.functions.findIdx? (fun other => other.name == function.name) with
  | some position =>
    obtain ⟨inside, isNamed, _⟩ := List.findIdx?_eq_some_iff_getElem.mp found
    refine .inl ⟨_, List.getElem_mem inside, by simpa using isNamed, ?_⟩
    change ((draft.functions[position]?.map IR.Function.callee).getD _, draft) = _
    rw [List.getElem?_eq_getElem inside]
    rfl
  | none =>
    refine .inr ?_
    change (((draft.functions ++ [function])[draft.functions.length]?.map
      IR.Function.callee).getD _, _) = _
    rw [List.getElem?_append_right (Nat.le_refl _), Nat.sub_self]
    rfl

/-- The emission changes nothing but the structures. -/
def Describing {α : Type} (emission : Emit α) : Prop :=
  ∀ draft : Draft, ∃ structures, (emission draft).2 = { draft with structures }

namespace Describing

variable {α β : Type}

theorem pure (value : α) : Describing (pure value) := fun _ => ⟨_, rfl⟩

theorem bind {first : Emit α} {next : α → Emit β} (starts : Describing first)
    (continues : ∀ value, Describing (next value)) : Describing (first >>= next) := by
  intro draft
  obtain ⟨_, former⟩ := starts draft
  obtain ⟨structures, latter⟩ := continues (first draft).1 (first draft).2
  refine ⟨structures, latter.trans ?_⟩
  rw [former]

mutual

theorem layout (enclosing : String) (type : Ty) : Describing (layout enclosing type) := by
  cases type with
  | list element =>
    rw [Lowering.layout]
    exact bind (layout enclosing element) fun _ => pure _
  | entity header fields =>
    rw [Lowering.layout]
    apply bind fun _ => ⟨_, rfl⟩
    intro defined
    dsimp only
    split
    · apply bind fun _ => ⟨_, rfl⟩
      intro _
      apply bind (fieldLayouts header.name fields)
      intro layouts
      exact bind (fun _ => ⟨_, rfl⟩) fun _ => pure _
    · exact pure _
  | bool => exact pure _
  | real => exact pure _
  | int => exact pure _
  | char => exact pure _
  | self => exact pure _

theorem fieldLayouts (enclosing : String) (fields : List (String × Ty)) :
    Describing (fieldLayouts enclosing fields) := by
  cases fields with
  | nil => exact pure _
  | cons field rest =>
    obtain ⟨name, type⟩ := field
    rw [Lowering.fieldLayouts]
    apply bind (layout enclosing type)
    intro _
    exact bind (fieldLayouts enclosing rest) fun _ => pure _

end

end Describing

/-- The emission appends nothing to the current block. -/
def Codeless {α : Type} (emission : Emit α) : Prop :=
  ∀ draft : Draft, draft.Valid → Grows draft [] (emission draft).2

namespace Codeless

variable {α β : Type}

theorem pure (value : α) : Codeless (pure value) := fun _ _ => .of_same rfl rfl rfl rfl rfl

theorem bind {first : Emit α} {next : α → Emit β} (starts : Codeless first)
    (continues : ∀ value, Codeless (next value)) : Codeless (first >>= next) := by
  intro draft valid
  have grows := starts draft valid
  exact grows.trans (continues _ _ (grows.valid valid)) valid

theorem get : Codeless get := fun _ _ => .of_same rfl rfl rfl rfl rfl

theorem functionIndex? (name : String) : Codeless (Emit.functionIndex? name) :=
  bind get fun _ => pure _

theorem declare {function : IR.Function} (declares : function.blocks = []) :
    Codeless (Emit.declare function) := by
  apply bind (functionIndex? function.name)
  intro found
  cases found with
  | some index => exact pure index
  | none => exact fun draft valid => .declaration declares valid

theorem callee (index : Nat) : Codeless (Emit.callee index) := bind get fun _ => pure _

theorem routine (routine : Routine) : Codeless (Emit.routine routine) :=
  bind (declare rfl) fun _ => callee _

theorem valueLayout (type : Ty) : Codeless (valueLayout type) := by
  intro draft _
  obtain ⟨structures, same⟩ := Describing.layout "" type draft
  rw [Lowering.valueLayout, same]
  exact .of_same rfl rfl rfl rfl rfl

theorem slotLayout (type : Ty) : Codeless (slotLayout type) :=
  bind (valueLayout type) fun _ => pure _

end Codeless

/-- The emission appends straight code, which uses known locals only; `shape` holds for what is
known after it, for the code and for its value. -/
def Writes {α : Type} (known : Locals) (emission : Emit α)
    (shape : Locals → List IR.Instruction → α → Prop) : Prop :=
  ∀ draft : Draft, draft.Valid →
    ∃ code, Grows draft code (emission draft).2 ∧ Needs known code ∧
      shape (known ++ results code) code (emission draft).1

/-- The emission appends straight code, which uses known locals only; `result` holds for its value
and for what is known after it. -/
def Emits {α : Type} (known : Locals) (emission : Emit α)
    (result : Locals → α → Prop) : Prop :=
  Writes known emission fun more _ => result more

private theorem grows_compute (operation : IR.Operation) (draft : Draft) :
    Grows draft [⟨some (.temporary draft.temporaries), operation⟩]
      (Emit.compute operation draft).2 := by
  refine .instruction ⟨some (.temporary draft.temporaries), operation⟩ (Nat.le_succ _) ?_
  rintro name ⟨⟩ index ⟨⟩
  exact ⟨Nat.le_refl _, Nat.lt_succ_self _⟩

/-- An operation whose operands are known is appended. -/
theorem computed {known : Locals} (draft : Draft)
    (operands : ∀ value ∈ operation.operands, Known known value) :
    Grows draft [⟨some (.temporary draft.temporaries), operation⟩]
      (Emit.compute operation draft).2 ∧
      Supplied known [⟨some (.temporary draft.temporaries), operation⟩] := by
  refine ⟨grows_compute operation draft, .instruction operands ?_⟩
  rintro name ⟨⟩
  exact ⟨_, rfl⟩

namespace Writes

variable {α β : Type} {known : Locals}

theorem pure {value : α} {shape : Locals → List IR.Instruction → α → Prop}
    (holds : shape known [] value) : Writes known (pure value) shape := by
  intro draft _
  refine ⟨[], .of_same rfl rfl rfl rfl rfl, .nil, ?_⟩
  rw [IR.results_nil, Locals.append_nil]
  exact holds

theorem bind {first : Emit α} {next : α → Emit β} {middle : Locals → List IR.Instruction → α → Prop}
    {shape : Locals → List IR.Instruction → β → Prop} (starts : Writes known first middle)
    (continues : ∀ more code value, known ⊆ more → middle more code value →
      Writes more (next value) fun more later => shape more (code ++ later)) :
    Writes known (first >>= next) shape := by
  intro draft valid
  obtain ⟨code, grows, needs, holds⟩ := starts draft valid
  obtain ⟨later, growsLater, needsLater, holdsLater⟩ :=
    continues _ code _ (Locals.subset_append _ _) holds _ (grows.valid valid)
  refine ⟨code ++ later, grows.trans growsLater valid, needs.append needsLater, ?_⟩
  rw [IR.results_append, ← Locals.append_assoc]
  exact holdsLater

theorem weaken {emission : Emit α} {shape weaker : Locals → List IR.Instruction → α → Prop}
    (writes : Writes known emission shape)
    (implies : ∀ more code value, shape more code value → weaker more code value) :
    Writes known emission weaker := by
  intro draft valid
  obtain ⟨code, grows, needs, holds⟩ := writes draft valid
  exact ⟨code, grows, needs, implies _ code _ holds⟩

theorem after {first : Emit α} {next : α → Emit β}
    {shape : Locals → List IR.Instruction → β → Prop} (codeless : Codeless first)
    (continues : ∀ value, Writes known (next value) shape) :
    Writes known (first >>= next) shape := by
  intro draft valid
  have starts := codeless draft valid
  obtain ⟨code, grows, needs, holds⟩ := continues _ _ (starts.valid valid)
  exact ⟨code, starts.trans grows valid, needs, holds⟩

theorem perform (justified : Justified [] operation)
    (operands : ∀ value ∈ operation.operands, Known known value) :
    Writes known (Emit.perform operation) fun _ code _ => code = [⟨none, operation⟩] := by
  intro draft _
  exact ⟨_, .instruction ⟨none, operation⟩ (Nat.le_refl _) (by simp),
    ⟨.instruction operands nofun, .single justified⟩, rfl⟩

theorem compute (justified : Justified [] operation)
    (operands : ∀ value ∈ operation.operands, Known known value) :
    Writes known (Emit.compute operation) fun more code value => Known more value ∧
      ∃ name, code = [⟨some name, operation⟩] ∧ value = .result name operation.resultType := by
  intro draft _
  obtain ⟨grows, supplied⟩ := computed draft operands
  exact ⟨_, grows, ⟨supplied, .single justified⟩,
    List.mem_append_right _ (by simp [results]), _, rfl, rfl⟩

theorem fieldPointer {base : IR.Value} (record : IR.Ty) (index : Nat) (isKnown : Known known base) :
    Writes known (Emit.fieldPointer base record index) fun more code value => Known more value ∧
      ∃ name held, code = [⟨some name, .fieldPointer record base index held⟩] ∧
        value = .result name (.pointer held) := by
  apply after .get
  intro draft
  apply (compute (by trivial) (by simpa [IR.Operation.operands] using isKnown)).weaken
  rintro more code value ⟨valueKnown, name, rfl, rfl⟩
  exact ⟨valueKnown, name, _, rfl, rfl⟩

variable {list : IR.Value}

theorem readsHeader (record type : IR.Ty) (field : Nat) (isKnown : Known known list) :
    Writes known (do Emit.load type (← Emit.fieldPointer list record field)) fun more code value =>
      Known more value ∧ ReadsHeader list field value code := by
  apply bind (fieldPointer record field isKnown)
  rintro more _ _ _ ⟨addressKnown, address, held, rfl, rfl⟩
  apply (compute (by trivial) (by simpa [IR.Operation.operands] using addressKnown)).weaken
  rintro _ _ _ ⟨valueKnown, result, rfl, rfl⟩
  exact ⟨valueKnown, record, held, type, address, result, rfl, rfl⟩

theorem sizeOfList (element : Ty) (isKnown : Known known list) :
    Writes known (Emit.sizeOfList list element) fun more code value =>
      Known more value ∧ ReadsHeader list 0 value code :=
  after (.valueLayout _) fun record => readsHeader record .i64 0 isKnown

theorem elementsOf (element : Ty) (isKnown : Known known list) :
    Writes known (Emit.elementsOf list element) fun more code value =>
      Known more value ∧ ReadsHeader list 1 value code :=
  after (.slotLayout _) fun slot =>
    after (.valueLayout _) fun record => readsHeader record (.pointer slot) 1 isKnown

theorem routine (routine : Routine) : Writes known (Emit.routine routine) fun _ code callee =>
    code = [] ∧ callee.name = routine.name := by
  intro draft valid
  refine ⟨[], Codeless.routine routine draft valid, .nil, rfl, ?_⟩
  rcases declare_cases routine.declaration draft with ⟨found, _, named, equation⟩ | equation
  · unfold Emit.routine
    rw [equation]
    exact named
  · unfold Emit.routine
    rw [equation]
    rfl

theorem check {file : IR.Value} {arguments : List IR.Value} (checking : Routine) (line : Nat)
    (knownFile : Known known file) (isKnown : ∀ value ∈ arguments, Known known value) :
    Writes known (Emit.check checking file line arguments) fun _ code _ =>
      ChecksAt checking line arguments code := by
  apply bind (routine checking)
  rintro more _ callee subset ⟨rfl, named⟩
  have operands : ∀ value ∈ (IR.Operation.call callee (arguments ++ [file, .int64 line])).operands,
      Known more value := by
    intro value member
    rcases List.mem_append.mp member with isArgument | isPlace
    · exact (isKnown value isArgument).mono subset
    · rcases List.mem_cons.mp isPlace with rfl | isLine
      · exact knownFile.mono subset
      · rw [List.mem_singleton.mp isLine]
        exact .constant rfl
  apply (perform (by trivial) operands).weaken
  rintro _ _ _ rfl
  exact ⟨callee, file, named, rfl⟩

theorem normaliseIndex {index : IR.Value} (knownIndex : Known known index)
    (knownSize : Known known size) :
    Writes known (Emit.normaliseIndex index size) fun more code position =>
      Known more position ∧ Normalises index size position code := by
  apply bind (routine .normaliseIndex)
  rintro more _ callee subset ⟨rfl, named⟩
  have operands :
      ∀ value ∈ (IR.Operation.call callee [index, size]).operands, Known more value := by
    simpa [IR.Operation.operands] using ⟨knownIndex.mono subset, knownSize.mono subset⟩
  apply (compute (by trivial) operands).weaken
  rintro _ _ _ ⟨positionKnown, result, rfl, rfl⟩
  exact ⟨positionKnown, callee, result, named, rfl, rfl⟩

theorem copyValues {count : IR.Value} (type : IR.Ty) (knownTarget : Known known target)
    (knownSource : Known known source) (knownCount : Known known count) :
    Writes known (Emit.copyValues target source type count) fun _ code _ =>
      Copies target source count code := by
  refine bind (compute trivial (by simpa [IR.Operation.operands] using ⟨knownCount, trivial⟩)) ?_
  rintro known₁ _ _ subset₁ ⟨bytesKnown, bytes, rfl, rfl⟩
  refine bind (routine .copyBytes) ?_
  rintro known₂ _ callee subset₂ ⟨rfl, named⟩
  have sub₂ := Locals.subset_trans subset₁ subset₂
  refine bind (compute trivial (by simpa [IR.Operation.operands] using knownSource.mono sub₂)) ?_
  rintro known₃ _ _ subset₃ ⟨originKnown, origin, rfl, rfl⟩
  have sub₃ := Locals.subset_trans sub₂ subset₃
  refine bind (compute trivial (by simpa [IR.Operation.operands] using knownTarget.mono sub₃)) ?_
  rintro known₄ _ _ subset₄ ⟨goalKnown, goal, rfl, rfl⟩
  have bytesLater := ((bytesKnown.mono subset₂).mono subset₃).mono subset₄
  apply (perform (by trivial) (by
    simpa [IR.Operation.operands] using ⟨originKnown.mono subset₄, goalKnown, bytesLater⟩)).weaken
  rintro _ _ _ rfl
  exact ⟨type, bytes, origin, goal, callee, named, rfl⟩

theorem buildList (element : Ty) (isKnown : Known known size) :
    Writes known (Emit.buildList element size) fun more code built =>
      (Known more built.1 ∧ Known more built.2) ∧ BuildsHeader size built.2 code := by
  refine after (.slotLayout element) fun slot => ?_
  refine bind (compute trivial (by simpa [IR.Operation.operands] using isKnown)) ?_
  rintro known₁ _ _ subset₁ ⟨blockKnown, block, rfl, rfl⟩
  refine after (.valueLayout (.list element)) fun record => ?_
  refine bind (compute trivial (by simp [IR.Operation.operands])) ?_
  rintro known₂ _ _ subset₂ ⟨listKnown, list, rfl, rfl⟩
  refine bind (fieldPointer record 0 listKnown) ?_
  rintro known₃ _ _ subset₃ ⟨firstKnown, first, held, rfl, rfl⟩
  have sizeKnown := ((isKnown.mono subset₁).mono subset₂).mono subset₃
  refine bind (perform trivial (by simpa [IR.Operation.operands] using ⟨sizeKnown, firstKnown⟩)) ?_
  rintro known₄ _ _ subset₄ rfl
  have sub₄ := Locals.subset_trans subset₃ subset₄
  refine bind (fieldPointer record 1 (listKnown.mono sub₄)) ?_
  rintro known₅ _ _ subset₅ ⟨secondKnown, second, third, rfl, rfl⟩
  have sub₅ := Locals.subset_trans sub₄ subset₅
  have blockLater := (blockKnown.mono subset₂).mono sub₅
  refine bind
    (perform trivial (by simpa [IR.Operation.operands] using ⟨blockLater, secondKnown⟩)) ?_
  rintro known₆ _ _ subset₆ rfl
  refine pure ⟨⟨(listKnown.mono sub₅).mono subset₆, blockLater.mono subset₆⟩, ?_⟩
  exact ⟨slot, record, held, block, list, first, second, third, rfl, rfl⟩

end Writes

namespace Emits

variable {α β : Type} {known : Locals}

variable {result : Locals → α → Prop} {emission : Emit α} {function : IR.Callee}
  {arguments : List IR.Value} {count : IR.Value}

theorem pure {value : α} (holds : result known value) : Emits known (pure value) result :=
  Writes.pure holds

theorem bind {first : Emit α} {next : α → Emit β} {middle : Locals → α → Prop}
    {result : Locals → β → Prop} (starts : Emits known first middle)
    (continues : ∀ more value, known ⊆ more → middle more value → Emits more (next value) result) :
    Emits known (first >>= next) result :=
  Writes.bind starts fun more _ value => continues more value

/-- What an emission writes has a shape, which is forgotten. -/
theorem of_writes {shape : List IR.Instruction → α → Prop}
    (writes : Writes known emission fun more code value => result more value ∧ shape code value) :
    Emits known emission result :=
  writes.weaken fun _ _ _ holds => holds.1

theorem codeless (codeless : Codeless emission) : Emits known emission fun _ _ => True :=
  fun draft valid => ⟨[], codeless draft valid, .nil, trivial⟩

theorem perform (justified : Justified [] operation)
    (operands : ∀ value ∈ operation.operands, Known known value) :
    Emits known (Emit.perform operation) fun _ _ => True :=
  (Writes.perform justified operands).weaken fun _ _ _ _ => trivial

theorem compute (justified : Justified [] operation)
    (operands : ∀ value ∈ operation.operands, Known known value) :
    Emits known (Emit.compute operation) Known :=
  .of_writes (.compute justified operands)

theorem load {address : IR.Value} (type : IR.Ty) (isKnown : Known known address) :
    Emits known (Emit.load type address) Known :=
  compute trivial (by simpa [IR.Operation.operands] using isKnown)

theorem store {value address : IR.Value} (knownValue : Known known value)
    (knownAddress : Known known address) : Emits known (Emit.store value address) fun _ _ => True :=
  perform trivial (by simpa [IR.Operation.operands] using ⟨knownValue, knownAddress⟩)

theorem alloca (type : IR.Ty) {count : Option IR.Value}
    (isKnown : ∀ value ∈ count, Known known value) : Emits known (Emit.alloca type count) Known :=
  compute trivial (by simpa [IR.Operation.operands] using isKnown)

theorem convert {value : IR.Value} (conversion : IR.Conversion) (target : IR.Ty)
    (isKnown : Known known value) :
    Emits known (Emit.compute (.convert conversion value target)) Known :=
  compute trivial (by simpa [IR.Operation.operands] using isKnown)

theorem arithmetic {left right : IR.Value} {operator : IR.Arithmetic}
    (total : operator ≠ .fdiv) (knownLeft : Known known left) (knownRight : Known known right) :
    Emits known (Emit.compute (.arithmetic operator left right)) Known := by
  apply compute
  · cases operator with
    | fdiv => exact absurd rfl total
    | _ => trivial
  · simpa [IR.Operation.operands] using ⟨knownLeft, knownRight⟩

theorem fieldPointer {base : IR.Value} (record : IR.Ty) (index : Nat) (isKnown : Known known base) :
    Emits known (Emit.fieldPointer base record index) Known :=
  .of_writes (.fieldPointer record index isKnown)

theorem constantText (content : String) : Emits known (Emit.constantText content) Known := by
  intro draft _
  obtain ⟨⟨label, length, isText⟩, texts, same⟩ := constantText_cases content draft
  rw [isText, same]
  exact ⟨[], .of_same rfl rfl rfl rfl rfl, .nil, .constant rfl⟩

theorem declare {function : IR.Function} (declares : function.blocks = []) :
    Emits known (Emit.declare function) fun _ _ => True :=
  .codeless (.declare declares)

theorem callee (index : Nat) : Emits known (Emit.callee index) fun _ _ => True :=
  .codeless (.callee index)

theorem routine (routine : Routine) : Emits known (Emit.routine routine) fun _ _ => True :=
  .codeless (.routine routine)

theorem performCall (isKnown : ∀ value ∈ arguments, Known known value) :
    Emits known (Emit.perform (.call function arguments)) fun _ _ => True :=
  perform trivial isKnown

theorem computeCall (isKnown : ∀ value ∈ arguments, Known known value) :
    Emits known (Emit.compute (.call function arguments)) Known :=
  compute trivial isKnown

theorem call (isKnown : ∀ value ∈ arguments, Known known value) :
    Emits known (Emit.call function arguments) Known := by
  unfold Emit.call
  split
  · exact .bind (performCall isKnown) fun _ _ _ _ => .pure (.constant rfl)
  · exact computeCall isKnown

theorem copyValues (type : IR.Ty) (knownTarget : Known known target)
    (knownSource : Known known source) (knownCount : Known known count) :
    Emits known (Emit.copyValues target source type count) fun _ _ => True :=
  (Writes.copyValues type knownTarget knownSource knownCount).weaken fun _ _ _ _ => trivial

theorem heapAllocate (type : IR.Ty) (isKnown : Known known count) :
    Emits known (Emit.heapAllocate type count) Known := by
  refine .bind (arithmetic nofun isKnown (.constant rfl)) fun known₁ bytes _ bytesKnown => ?_
  refine .bind (routine .allocate) fun known₂ function subset₂ _ => ?_
  refine .bind (computeCall (by simpa using bytesKnown.mono subset₂)) fun _ raw _ rawKnown => ?_
  exact convert .bitcast _ rawKnown

theorem stackAllocate (type : IR.Ty) (isKnown : Known known count) :
    Emits known (Emit.stackAllocate type count) Known :=
  alloca type (by simpa using isKnown)

theorem valueLayout (type : Ty) : Emits known (valueLayout type) fun _ _ => True :=
  .codeless (.valueLayout type)

theorem slotLayout (type : Ty) : Emits known (slotLayout type) fun _ _ => True :=
  .codeless (.slotLayout type)

/-! ### Lists and entities -/

theorem buildList (element : Ty) (isKnown : Known known size) :
    Emits known (Emit.buildList element size) fun more built =>
      Known more built.1 ∧ Known more built.2 :=
  .of_writes (.buildList element isKnown)

theorem sizeOfList {list : IR.Value} (element : Ty) (isKnown : Known known list) :
    Emits known (Emit.sizeOfList list element) Known :=
  .of_writes (.sizeOfList element isKnown)

theorem elementsOf {list : IR.Value} (element : Ty) (isKnown : Known known list) :
    Emits known (Emit.elementsOf list element) Known :=
  .of_writes (.elementsOf element isKnown)

theorem initLists {entity : IR.Value} (record : IR.Ty) (index : Nat) (types : List Ty)
    (isKnown : Known known entity) :
    Emits known (Emit.initLists entity record index types) fun _ _ => True := by
  induction types generalizing known index with
  | nil => exact .pure trivial
  | cons type rest ih =>
    cases type with
    | list element =>
      rw [Emit.initLists]
      refine .bind (buildList element (.constant rfl)) fun known₁ built subset₁ builtKnown => ?_
      refine .bind (fieldPointer record index (isKnown.mono subset₁))
        fun known₂ address subset₂ addressKnown => ?_
      refine .bind (store (builtKnown.1.mono subset₂) addressKnown) fun known₃ _ subset₃ _ => ?_
      have sub₃ := Locals.subset_trans subset₁ (Locals.subset_trans subset₂ subset₃)
      exact ih (index + 1) (isKnown.mono sub₃)
    | _ => exact ih (index + 1) isKnown

theorem buildEntity (entity : Entity) : Emits known (Emit.buildEntity entity) Known := by
  refine .bind (valueLayout entity.type) fun known₁ record _ _ => ?_
  refine .bind (alloca record (by simp)) fun known₂ address _ addressKnown => ?_
  refine .bind (store (.constant rfl) addressKnown) fun known₃ _ subset₃ _ => ?_
  refine .bind (initLists record 0 _ (addressKnown.mono subset₃)) fun known₄ _ subset₄ _ => ?_
  exact .pure ((addressKnown.mono subset₃).mono subset₄)

theorem overwriteList (element : Ty) {allocate : IR.Ty → IR.Value → Emit IR.Value}
    (allocates : ∀ known type count, Known known count → Emits known (allocate type count) Known)
    (knownTarget : Known known target) (knownSource : Known known source) :
    Emits known (Emit.overwriteList target source element allocate) fun _ _ => True := by
  refine .bind (valueLayout (.list element)) fun known₁ record subset₁ _ => ?_
  refine .bind (copyValues record (knownTarget.mono subset₁) (knownSource.mono subset₁)
    (.constant rfl)) fun known₂ _ subset₂ _ => ?_
  have sub₂ := Locals.subset_trans subset₁ subset₂
  refine .bind (sizeOfList element (knownSource.mono sub₂)) fun known₃ size subset₃ sizeKnown => ?_
  refine .bind (slotLayout element) fun known₄ slot subset₄ _ => ?_
  have sub₄ := Locals.subset_trans sub₂ (Locals.subset_trans subset₃ subset₄)
  refine .bind (allocates known₄ slot size (sizeKnown.mono subset₄))
    fun known₅ block subset₅ blockKnown => ?_
  have sub₅ := Locals.subset_trans sub₄ subset₅
  refine .bind (elementsOf element (knownSource.mono sub₅))
    fun known₆ origin subset₆ originKnown => ?_
  have later := Locals.subset_trans subset₄ (Locals.subset_trans subset₅ subset₆)
  refine .bind (copyValues slot (blockKnown.mono subset₆) originKnown (sizeKnown.mono later))
    fun known₇ _ subset₇ _ => ?_
  have sub₇ := Locals.subset_trans sub₅ (Locals.subset_trans subset₆ subset₇)
  refine .bind (fieldPointer record 1 (knownTarget.mono sub₇))
    fun known₈ address subset₈ addressKnown => ?_
  exact store (((blockKnown.mono subset₆).mono subset₇).mono subset₈)
    addressKnown

end Emits

end Kronk.Lowering
