import Kronk.Proofs.Control
import Kronk.Proofs.Compilation

/-!
# The code of functions

A function is entered in an empty block, binds its parameters and ends in an exit block that loads
its result.  If its body mentions only names that are definite, the function is dominated.
-/

namespace Kronk.IR

namespace Block

variable {blocks : List Block} {exit : String} {tail : List Instruction} {terminator : Terminator}

/-- What a last block uses is defined in it or before it. -/
theorem uses_last {last : Nat} {done run : List Instruction} {place : Position} {name : LocalName}
    (found : blocks[last]? = some ⟨exit, tail, some terminator⟩) (final : terminator.targets = [])
    (closed : (Code.straight tail).Closed (results run))
    (known : ∀ name ∈ terminator.uses, name ∈ results run ++ results tail)
    (gets : Gets blocks ⟨last, 0⟩ done place) (uses : UsesAt blocks place name) :
    name ∈ results (run ++ done) := by
  obtain ⟨count, steps⟩ := gets
  have lays : Lays blocks exit (.straight tail) ⟨last, 0⟩ ⟨last, 0 + tail.length⟩ :=
    .straight found (List.prefix_refl _)
  have ends : Ends blocks ⟨last, 0 + tail.length⟩ terminator :=
    ⟨_, found, by simp, rfl⟩
  rw [results_append]
  cases lays.splits uses steps with
  | inside reaches => exact closed done name reaches
  | beyond runs split _ later =>
    cases runs
    subst split
    rcases ends.steps later with ⟨rfl, rfl⟩ | ⟨_, _, _, _, member, _⟩
    · rw [List.append_nil]
      exact known name (ends.uses uses)
    · rw [final] at member
      cases member
  | exit exits _ _ _ _ => cases exits

/-- Closed code that goes to a last block makes the function dominated. -/
theorem dominated_append {code : Code} {stop : Position}
    (lays : Lays blocks exit code ⟨0, 0⟩ stop) (continues : Continues blocks code stop exit)
    (unused : position? blocks exit = none) (closed : code.Closed [])
    (final : terminator.targets = [])
    (closedTail : ∀ run, code.Runs run ∨ code.Exits run → (Code.straight tail).Closed (results run))
    (known : ∀ run, code.Runs run ∨ code.Exits run →
      ∀ name ∈ terminator.uses, name ∈ results run ++ results tail) :
    Dominated (blocks ++ [⟨exit, tail, some terminator⟩]) := by
  have extended : Extends blocks (blocks ++ [⟨exit, tail, some terminator⟩]) := .append _
  have found : (blocks ++ [⟨exit, tail, some terminator⟩])[blocks.length]? =
      some ⟨exit, tail, some terminator⟩ := by simp
  have placed : position? (blocks ++ [⟨exit, tail, some terminator⟩]) exit =
      some blocks.length := by
    unfold position? at unused ⊢
    rw [List.findIdx?_append, unused]
    simp [List.findIdx?_cons]
  refine (dominated_iff (extended.lays lays) ?_ ?_).mpr closed
  · rintro run rest target name runs ⟨count, steps⟩ uses
    have ends := extended.ends (continues runs.not_leaves)
    obtain ⟨_, _, later⟩ := Lays.jump_steps uses ends placed steps
    exact uses_last found final (closedTail run (.inl runs)) (known run (.inl runs)) ⟨_, later⟩ uses
  · intro run last rest target name exits reached gets uses
    rw [placed, Option.some.injEq] at reached
    subst reached
    exact uses_last found final (closedTail run (.inr exits)) (known run (.inr exits)) gets uses

end Block

/-- What straight code at the start defines is defined on every way through. -/
theorem Code.results_start {entry run : List Instruction} {rest : Code}
    (passes : (Code.seq (.straight entry) rest).Runs run ∨
      (Code.seq (.straight entry) rest).Exits run) : results entry ⊆ results run := by
  rcases passes with runs | exits
  · cases runs with
    | seq first _ =>
      cases first
      rw [results_append]
      exact List.subset_append_left _ _
  · cases exits with
    | first exits => cases exits
    | second first _ =>
      cases first
      rw [results_append]
      exact List.subset_append_left _ _

end Kronk.IR

namespace Kronk

theorem Table.contains_insert {α : Type} (table : Table α) (key other : String) (value : α) :
    (table.insert key value).contains other = true ↔ other = key ∨ table.contains other = true := by
  unfold contains
  rw [get?_insert]
  split
  · next same => simp [same]
  · next differs => simp [differs]

end Kronk

namespace Kronk.Lowering

open IR (Block Code results)
open Source (Definite)

variable {strict : Prop}

/-! ## Steps that write no code -/

/-- Code and names are as before, and functions were only added to the module. -/
structure Untouched (before after : Workbench) : Prop where
  draft : after.frame.draft = before.frame.draft
  scopes : after.frame.scopes = before.frame.scopes
  file : after.frame.fileName = before.frame.fileName
  functions : ∀ name, before.frame.module.functions.contains name = true →
    after.frame.module.functions.contains name = true

namespace Untouched

variable {before after : Workbench}

theorem sound (untouched : Untouched before after) (sound : Sound strict before) :
    Sound strict after where
  program := by
    rw [untouched.draft]
    exact sound.program
  finished := by
    rw [untouched.draft]
    exact sound.finished
  named index function notProgram found := by
    rw [untouched.draft] at found
    rcases sound.named index function notProgram found with empty | isCopier | isKnown
    · exact .inl empty
    · exact .inr (.inl isCopier)
    · exact .inr (.inr (untouched.functions _ isKnown))
  top := by
    rw [untouched.scopes, untouched.draft]
    exact sound.top
  inScope := by
    rw [untouched.scopes]
    exact sound.inScope
  file := by
    rw [untouched.file]
    exact sound.file

theorem goes (untouched : Untouched before after) (sound : Sound strict before) :
    Goes strict [] before after where
  sound := untouched.sound sound
  function := by rw [untouched.draft]
  kept index function _ found _ := by
    rw [untouched.draft]
    exact found
  binding name _ := by
    unfold Workbench.binding?
    rw [untouched.scopes]
  activation := by
    unfold Workbench.activation?
    rw [untouched.scopes]
  depth := by rw [untouched.scopes]
  outer := by rw [untouched.scopes]
  temporaries := Nat.le_of_eq (by rw [untouched.draft])
  head := by rw [untouched.draft]
  guarded isGuarded := by
    rw [untouched.draft]
    exact isGuarded

end Untouched

/-- Lowering went on in the current function by closed code and declared nothing. -/
def Passes (strict : Prop) (exit : String) (before after : Workbench) : Prop :=
  ∃ code, Proceeds strict exit [] before code after ∧ code.leaves = false ∧
    (∀ definite, Carries [] definite definite before code after) ∧ Ranges [] before code after

namespace Passes

variable {exit : String} {before after : Workbench}

theorem stands (passes : Passes strict exit before after) (stands : Stands strict exit before) :
    Stands strict exit after := by
  obtain ⟨code, proceeds, goesOn, _⟩ := passes
  exact proceeds.stands stands goesOn

theorem trans {middle : Workbench} (first : Passes strict exit before middle)
    (second : Passes strict exit middle after) : Passes strict exit before after := by
  obtain ⟨code, proceeds, _, carries, ranges⟩ := first
  obtain ⟨later, proceedsOn, goesOn, carriesOn, rangesOn⟩ := second
  exact ⟨.seq code later, proceeds.seq proceedsOn, goesOn,
    fun definite => (carries definite).seq (carriesOn definite), ranges.seq rangesOn⟩

theorem of_goes (goes : Goes strict [] before after)
    (builds : Builds exit before.frame.draft (.straight []) after.frame.draft) :
    Passes strict exit before after := by
  refine ⟨.straight [], ⟨goes, builds⟩, rfl, ?_, ?_⟩
  · intro definite names known same _ supplies
    refine ⟨IR.closed_straight_iff.mpr (by simp [IR.external]), ?_⟩
    rintro run ⟨⟩
    refine ⟨names, same, ?_⟩
    exact supplies.goes goes builds.since.labelled.valid (Locals.subset_append _ _)
  · intro known _ supplies
    refine ⟨Needs.nil.uses, fun names => ?_⟩
    exact (supplies names).goes goes builds.since.labelled.valid (Locals.subset_append _ _)

theorem untouched (untouched : Untouched before after) (stands : Stands strict exit before) :
    Passes strict exit before after := by
  apply of_goes (untouched.goes stands.sound)
  have grows : Grows before.frame.draft [] after.frame.draft := by
    rw [untouched.draft]
    exact .of_same rfl rfl rfl rfl rfl
  exact grows.builds stands.ready

theorem evaluation {α : Type} {computation : Lower α} {value : α}
    (evaluates : Evaluates computation)
    (draws : ∀ names known, Draws names known computation fun _ _ => True)
    (stands : Stands strict exit before) (outcome : computation before = .ok value after) :
    Passes strict exit before after := by
  have drawn : ∀ names known, ([] : List String) ⊆ names → Knows known [] →
      Draws names known computation fun _ _ => True := fun names known _ _ => draws names known
  obtain ⟨code, grows, guarded, keeps, carries⟩ :=
    evaluates.straight drawn stands.ready stands.sound outcome
  refine ⟨.straight code, .straight stands grows guarded keeps, rfl, ?_, ?_⟩
  · intro definite names known same knows supplies
    obtain ⟨needs, suppliesAfter, _⟩ := carries names known (List.nil_subset names) knows supplies
    refine ⟨IR.closed_straight_iff.mpr needs.results, ?_⟩
    rintro run ⟨⟩
    exact ⟨names, same, suppliesAfter⟩
  · intro known knows supplies
    obtain ⟨needs, _, _⟩ := carries [] known (List.nil_subset _) knows (supplies [])
    refine ⟨needs.uses, fun names => ?_⟩
    exact (carries names known (List.nil_subset names) knows (supplies names)).2.1

end Passes

namespace Draws

variable {names : List String} {known : Locals}

theorem resolveFields (line : Nat) (own : String) (fields : List (String × Source.TypeName)) :
    Draws names known (resolveFields line own fields) fun _ _ => True := by
  induction fields generalizing known with
  | nil => exact .pure trivial
  | cons field rest ih =>
    exact .bind (.resolve _ _ _) fun _ _ _ _ => .bind ih fun _ _ _ _ =>
      .pure trivial

theorem mapM {α β : Type} {computation : α → Lower β}
    (each : ∀ known value, Draws names known (computation value) fun _ _ => True)
    (values : List α) :
    Draws names known (values.mapM computation) fun _ _ => True := by
  rw [← List.mapM'_eq_mapM]
  induction values generalizing known with
  | nil => exact .pure trivial
  | cons value rest ih =>
    exact .bind (each known value) fun _ _ _ _ => .bind ih fun _ _ _ _ =>
      .pure trivial

theorem currentModule : Draws names known Lower.currentModule fun _ _ => True := read fun _ => rfl

/-- The head of a function is resolved to a signature of its name. -/
theorem resolveHead (prototype : Source.Prototype) :
    Draws names known (resolveHead prototype) fun _ function => function.name = prototype.name := by
  have resolves : ∀ known parameter, Draws names known
      (Lower.resolve prototype.line none (parameter : String × Source.TypeName).2)
      fun _ _ => True := fun _ _ => .resolve _ _ _
  refine .bind (.mapM resolves _) fun known₁ parameters _ _ => ?_
  have result : Draws names known₁ (prototype.result.mapM (Lower.resolve prototype.line none))
      fun _ _ => True := by
    cases prototype.result with
    | none => exact .pure trivial
    | some written => exact .bind (.resolve _ _ _) fun _ _ _ _ => .pure trivial
  exact .bind result fun _ _ _ _ => .bind currentModule fun _ _ _ _ => .pure rfl

end Draws

/-- The frame waits while an included file is compiled. -/
def Waits (compileIncluded : String → String → Nat → Lower Unit) : Prop :=
  ∀ path id line before after, compileIncluded path id line before = .ok () after →
    after.frame = before.frame

namespace Advances

variable {given : List IR.Value} {exit : String} {definite later : Definite}
  {declared : List String} {leaves : Bool}

theorem untouched {lowering : Lower Unit}
    (untouched : ∀ before after, lowering before = .ok () after → Untouched before after) :
    Advances strict given exit definite definite [] false lowering := by
  intro before after stands outcome
  obtain ⟨code, proceeds, goesOn, carries, ranges⟩ :=
    Passes.untouched (untouched before after outcome) stands
  exact ⟨code, proceeds, goesOn, fun names known same _ => carries definite names known same nofun,
    fun known _ => ranges known nofun⟩

theorem afterUntouched {first second : Lower Unit}
    (steps : ∀ before after, first before = .ok () after → Untouched before after)
    (continues : Advances strict [] exit definite later declared leaves second) :
    Advances strict given exit definite later declared leaves (first >>= fun _ => second) :=
  seq (untouched steps) continues.give

theorem guard {condition : Prop} [Decidable condition] {line : Nat} {error : LowerError}
    {next : Lower Unit}
    (advances : Advances strict given exit definite later declared leaves next) :
    Advances strict given exit definite later declared leaves (do
      if condition then Lower.fail line error
      next) := by
  split
  · intro before after _ outcome
    obtain ⟨_, _, failed, _⟩ := bind_eq_ok outcome
    cases failed
  · exact advances

theorem entityDefinition (definition : Source.EntityDefinition) :
    Advances strict [] exit definite definite [] false (Lowering.entityDefinition definition) := by
  refine skip .inFunctionBody (fun _ _ _ => .read fun _ => rfl) fun nested => ?_
  apply guard
  apply afterUntouched
  · rintro before after ⟨⟩
    exact ⟨rfl, rfl, rfl, fun _ isKnown => isKnown⟩
  refine skip (.resolveFields _ _ fun field _ => field.2.consults_all)
    (fun _ _ _ => .resolveFields _ _ _) fun fields => ?_
  refine skip .currentModule (fun _ _ _ => .currentModule) fun current => ?_
  apply afterUntouched
  · rintro before after ⟨⟩
    exact ⟨rfl, rfl, rfl, fun _ isKnown => isKnown⟩
  refine skip (.emit _) (fun _ _ _ => .emit (.valueLayout _)) fun _ => ?_
  apply untouched
  rintro before after ⟨⟩
  exact ⟨rfl, rfl, rfl, fun _ isKnown => isKnown⟩

theorem inclusion {compileIncluded : Includer}
    (waits : Waits compileIncluded) (written : Source.Include) :
    Advances strict [] exit definite definite [] false
      (Lowering.inclusion compileIncluded written) := by
  apply untouched
  intro before after outcome
  have cases := Compile.inclusion_cases compileIncluded written before
  rw [outcome] at cases
  cases cases with
  | runtime _ _ _ => exact ⟨rfl, rfl, rfl, fun _ isKnown => isKnown⟩
  | @included path log later inner _ compiled =>
    have waited := waits _ _ _ _ _ compiled
    have same : inner.frame = before.frame := waited
    constructor
    · change inner.frame.draft = _
      rw [same]
    · change inner.frame.scopes = _
      rw [same]
    · change inner.frame.fileName = _
      rw [same]
    · intro name isKnown
      change inner.frame.module.functions.contains name = true
      rw [same]
      exact isKnown

end Advances

/-! ## The exit of a function -/

def Draft.closing (draft : Draft) (label : String) : Draft :=
  (draft.mapBlocks (· ++ [{ label := label }])).entering draft.blocks.length

theorem modify_length_append {α : Type} (values : List α) (last : α) (change : α → α) :
    (values ++ [last]).modify values.length change = values ++ [change last] := by
  induction values with
  | nil => rfl
  | cons value rest ih =>
    simp only [List.cons_append, List.length_cons, List.modify_succ_cons, ih]

/-- A last block is added that is ended already. -/
theorem Comprises.close {exits : List String} {blocks : List Block} {code : List IR.Instruction}
    {conditions : List IR.Value} {label : String}
    (holds : Comprises exits blocks [] code conditions)
    (fresh : ∀ block ∈ blocks, block.label ≠ label) (isLabel : IsLabel label)
    (tail : List IR.Instruction) {terminator : IR.Terminator} (final : terminator.targets = []) :
    Comprises exits (blocks ++ [⟨label, tail, some terminator⟩]) [] (code ++ tail)
      (conditions ++ terminator.operands) := by
  have inside : blocks.length < (blocks ++ [({ label := label } : Block)]).length := by simp
  have added := (holds.add fresh isLabel).append inside tail
  have ended := Comprises.ended (by exact added) terminator (by
    rw [final]
    nofun)
  rw [appended, modify_length_append, modify_length_append] at ended
  exact ended

section Closing

variable {draft : Draft} {label : String}

theorem Draft.Valid.closing (valid : draft.Valid) : (draft.closing label).Valid :=
  Draft.Valid.mapBlocks valid

theorem Draft.Valid.blocks_closing (valid : draft.Valid) :
    (draft.closing label).blocks = draft.blocks ++ [{ label := label }] := by
  change (draft.mapBlocks (· ++ [{ label := label }])).blocks = _
  rw [valid.blocks_mapBlocks]

theorem Stays.closing : Stays draft (draft.closing label) := by
  have added : Stays draft (draft.mapBlocks (· ++ [{ label := label }])) :=
    .mapBlocks (good_newBlock label)
  exact added.trans (.of_same rfl rfl rfl rfl)

theorem Draft.Valid.isOpen_closing (valid : draft.Valid) : (draft.closing label).IsOpen := by
  refine ⟨{ label := label }, ?_, rfl⟩
  rw [valid.blocks_closing]
  exact List.getElem?_concat_length

/-- The last block, after code was appended to it and it was ended. -/
theorem Grows.blocks_closing {code : List IR.Instruction} {after : Draft} (valid : draft.Valid)
    (grows : Grows (draft.closing label) code after) (terminator : IR.Terminator) :
    (after.ended terminator).blocks = draft.blocks ++ [⟨label, code, some terminator⟩] := by
  have place : after.place.block = draft.blocks.length := by
    rw [grows.place]
    rfl
  have position : (draft.closing label).place.block = draft.blocks.length := rfl
  unfold Draft.ended
  rw [(grows.valid valid.closing).noted.blocks_mapBlocks]
  change after.blocks.modify _ _ = _
  rw [grows.blocks valid.closing,
    valid.blocks_closing, place, appended, position, modify_length_append, modify_length_append]
  rfl

end Closing

/-- What the exit of a function makes of its code. -/
structure Closes (known : Locals) (before after : Draft) (tail : List IR.Instruction)
    (terminator : IR.Terminator) : Prop where
  blocks : after.blocks = (before.jumping exitLabel).blocks ++ [⟨exitLabel, tail, some terminator⟩]
  final : terminator.targets = []
  needs : Needs known tail
  uses : ∀ value ∈ terminator.operands, Known (known ++ results tail) value
  outside : Outside before after
  function : after.place.function = before.place.function
  labels : ∀ base, before.count base ≤ after.count base
  strays : after.strays = (before.jumping exitLabel).strays

variable {known : Locals} {draft : Draft} {exit module : String} {before : Workbench}
  {index line : Nat} {prototype : Source.Prototype} {suspended : Suspension}

/-- The exit block of a function, up to its terminator. -/
theorem Closes.of_grows {before middle : Draft} {tail : List IR.Instruction}
    {terminator : IR.Terminator} (valid : before.Valid)
    (grows : Grows ((before.jumping exitLabel).closing exitLabel) tail middle)
    (final : terminator.targets = []) (needs : Needs known tail)
    (uses : ∀ value ∈ terminator.operands, Known (known ++ results tail) value) :
    Closes known before (middle.ended terminator) tail terminator := by
  have jumps : Stays before (before.jumping exitLabel) := Local.jumpUnlessTerminated _ before
  have validJumping : (before.jumping exitLabel).Valid := by
    unfold Draft.Valid
    rw [jumps.function, jumps.length]
    exact valid
  have first : Stays before ((before.jumping exitLabel).closing exitLabel) := jumps.trans .closing
  have last : Stays middle (middle.ended terminator) := Local.terminate _ middle
  have function : middle.place.function = before.place.function := by
    rw [grows.place, first.function]
  have toMiddle : Outside before middle := (Outside.of_stays first).trans
    (grows.outside needs.guarded) first.function valid
  exact {
    blocks := grows.blocks_closing validJumping terminator
    final := final
    needs := needs
    uses := uses
    outside := toMiddle.trans (.of_stays last) function valid
    function := function
    labels := by
      intro base
      have same : ((before.jumping exitLabel).closing exitLabel).count base = before.count base :=
        before.count_jumping exitLabel base
      rw [← same]
      exact grows.labels base
    strays := by
      have isOpen : ((before.jumping exitLabel).closing exitLabel).hasOpenBlock = true :=
        validJumping.isOpen_closing.hasOpenBlock validJumping.closing
      rw [strays_ended (grows.hasOpenBlock isOpen), grows.strays isOpen]
      rfl }

def exitCode (activation : Activation) : Emit Unit := do
  match activation.result, activation.slot with
  | some type, some slot =>
    let result ← Emit.load (← slotLayout type) slot
    Emit.terminate (.ret (some result))
  | _, _ => Emit.terminate (.ret none)

private theorem closeFunction_eq (activation : Activation) (draft : Draft) :
    closeFunction activation draft =
      exitCode activation ((draft.jumping exitLabel).closing exitLabel) := by
  have added := Emit.newBlock_eq (draft.jumping exitLabel) exitLabel
  change exitCode activation ((Emit.newBlock exitLabel (draft.jumping exitLabel)).2.entering
    (Emit.newBlock exitLabel (draft.jumping exitLabel)).1) = _
  rw [added]
  rfl

theorem exitCode_spec {activation : Activation}
    (isKnown : ∀ slot ∈ activation.slot, Known known slot) (valid : draft.Valid) :
    ∃ tail terminator middle, Grows draft tail middle ∧
      (exitCode activation draft).2 = middle.ended terminator ∧ terminator.targets = [] ∧
      Needs known tail ∧ ∀ value ∈ terminator.operands, Known (known ++ results tail) value := by
  have nothing : ∃ tail terminator middle, Grows draft tail middle ∧
      draft.ended (.ret none) = middle.ended terminator ∧ terminator.targets = [] ∧
      Needs known tail ∧ ∀ value ∈ terminator.operands, Known (known ++ results tail) value :=
    ⟨[], .ret none, draft, .of_same rfl rfl rfl rfl rfl, rfl, rfl, .nil, nofun⟩
  obtain ⟨result, slot⟩ := activation
  cases result with
  | none => exact nothing
  | some type =>
    cases slot with
    | none => exact nothing
    | some slot =>
      have emits : Emits known (do Emit.load (← slotLayout type) slot) Known :=
        .bind (.slotLayout type) fun _ layout subset _ =>
          .load layout ((isKnown slot rfl).mono subset)
      obtain ⟨tail, grows, needs, resultKnown⟩ := emits draft valid
      refine ⟨tail, .ret (some _), _, grows, rfl, rfl, needs, ?_⟩
      intro value member
      rw [List.mem_singleton.mp member]
      exact resultKnown

theorem closeFunction_closes {activation : Activation}
    (isKnown : ∀ slot ∈ activation.slot, Known known slot) {before : Draft} (valid : before.Valid) :
    ∃ tail terminator, Closes known before (closeFunction activation before).2 tail terminator := by
  have jumps : Stays before (before.jumping exitLabel) := Local.jumpUnlessTerminated _ before
  have validJumping : (before.jumping exitLabel).Valid := by
    unfold Draft.Valid
    rw [jumps.function, jumps.length]
    exact valid
  have validClosing : ((before.jumping exitLabel).closing exitLabel).Valid := validJumping.closing
  obtain ⟨tail, terminator, middle, grows, same, final, needs, uses⟩ :=
    exitCode_spec isKnown validClosing
  rw [closeFunction_eq, same]
  exact ⟨tail, terminator, .of_grows valid grows final needs uses⟩

/-! ## The entry of a function -/

/-- A function was declared that has no code yet. -/
structure Declared (bench : Workbench) (index : Nat) : Prop where
  top : bench.frame.draft.place.function = 0
  other : index ≠ 0
  empty : ∃ function, bench.frame.draft.functions[index]? = some function ∧ function.blocks = [] ∧
    bench.frame.module.functions.contains function.name = true

def Draft.inDeclared (draft : Draft) (index : Nat) : Draft :=
  Draft.mapBlocks { draft with place := ⟨index, 0⟩ } (· ++ [{ label := "FunctionEntry" }])

def Workbench.inBody (bench : Workbench) (draft : Draft) (activation : Activation) : Workbench :=
  { bench with frame := { bench.frame with
    draft := draft
    scopes := { activation := some activation } :: bench.frame.scopes } }

section Entry

variable {bench : Workbench} {index : Nat}

theorem Declared.valid (declared : Declared bench index) :
    (bench.frame.draft.inDeclared index).Valid := by
  obtain ⟨function, found, _⟩ := declared.empty
  unfold Draft.Valid Draft.inDeclared
  rw [Draft.length_mapBlocks]
  exact (List.getElem?_eq_some_iff.mp found).1

theorem Declared.function? (declared : Declared bench index) :
    ∃ function, bench.frame.draft.functions[index]? = some function ∧
      (bench.frame.draft.inDeclared index).function? =
        some { function with blocks := [{ label := "FunctionEntry" }] } ∧
      bench.frame.module.functions.contains function.name = true := by
  obtain ⟨function, found, empty, isKnown⟩ := declared.empty
  refine ⟨function, found, ?_, isKnown⟩
  unfold Draft.inDeclared
  rw [Draft.function?_mapBlocks]
  unfold Draft.function?
  rw [found, Option.map_some, empty]
  rfl

theorem Declared.blocks (declared : Declared bench index) :
    (bench.frame.draft.inDeclared index).blocks = [{ label := "FunctionEntry" }] := by
  obtain ⟨function, _, found, _⟩ := declared.function?
  unfold Draft.blocks
  rw [found]
  rfl

theorem Declared.ready (declared : Declared bench index) :
    Ready exitLabel (bench.frame.draft.inDeclared index) ∧
      (bench.frame.draft.inDeclared index).point = ⟨0, 0⟩ := by
  exact ready_of_single declared.valid declared.blocks rfl
    (numbered_ne_of_plain (by decide) (by decide))
    (numbered_ne_of_plain (by decide) (by decide)) (by decide)

theorem functions_inDeclared {other : Nat} (differs : other ≠ index) (draft : Draft) :
    (draft.inDeclared index).functions[other]? = draft.functions[other]? :=
  Draft.functions_mapBlocks_of_ne (by exact differs)

theorem Declared.sound (declared : Declared bench index) (sound : Sound strict bench)
    {entry : List IR.Instruction} {draft : Draft} (activation : Activation)
    (grows : Grows (bench.frame.draft.inDeclared index) entry draft) (guarded : Guarded entry) :
    Sound strict (bench.inBody draft activation) := by
  have place : draft.place.function = index := by
    rw [grows.place]
    rfl
  have outside := grows.outside guarded
  have cases : ∀ (other : Nat) (function : IR.Function), other ≠ index →
      draft.functions[other]? = some function →
      bench.frame.draft.functions[other]? = some function ∨ IsFinished function := by
    intro other function differs found
    rw [← functions_inDeclared differs bench.frame.draft]
    exact outside.found (by exact differs) found
  constructor
  · obtain ⟨program, found, isProgram⟩ := Option.map_eq_some_iff.mp sound.program
    have inside : 0 < (bench.frame.draft.inDeclared index).functions.length := by
      unfold Draft.inDeclared
      rw [Draft.length_mapBlocks]
      exact (List.getElem?_eq_some_iff.mp found).1
    change draft.functions[0]?.map IR.Function.name = some "main"
    rw [outside.others 0 (Ne.symm declared.other) inside, functions_inDeclared
      (Ne.symm declared.other)]
    exact sound.program
  · intro other function notProgram differs found
    have differs : other ≠ index := by
      rw [← place]
      exact differs
    rcases cases other function differs found with old | finished
    · exact sound.finished other function notProgram (by rwa [declared.top]) old
    · exact ⟨fun _ => finished.complete.1, finished.complete.2⟩
  · intro other function notProgram found
    by_cases here : other = index
    · subst here
      obtain ⟨signed, _, written, isKnown⟩ := declared.function?
      have named := outside.named
      rw [written] at named
      have current : draft.function? = some function := by
        unfold Draft.function?
        rw [place]
        exact found
      rw [current] at named
      have same : function.name = signed.name := Option.some.inj named
      exact .inr (.inr (same ▸ isKnown))
    · rcases cases other function here found with old | empty | ⟨isCopier, _⟩
      · exact sound.named other function notProgram old
      · exact .inl empty
      · exact .inr (.inl isCopier)
  · intro shallow
    have inScope := sound.inScope
    have deeper : bench.frame.scopes.length + 1 ≤ 1 := shallow
    omega
  · exact Nat.succ_pos _
  · exact sound.file

/-- Nothing is bound yet when the body of a function is entered. -/
theorem supplies_inBody (sound : Sound strict bench) {draft : Draft} {activation : Activation}
    {known : Locals} (valid : draft.Valid)
    (isKnown : ∀ slot ∈ activation.slot, Known known slot) (names : List String) :
    Supplies names known (bench.inBody draft activation) where
  valid := valid
  bound name _ found same := by cases same
  file := sound.file
  slot other same := by
    cases same
    exact isKnown

end Entry

/-! ## Definitions of functions -/

/-- The bench with the code of another one, where the names and the place are those before. -/
def Workbench.outOfBody (last before : Workbench) (final : Draft) : Workbench :=
  { last with frame := { last.frame with
    draft := { final with place := before.frame.draft.place }
    scopes := before.frame.scopes } }

/-- The code at the entry of a function makes the slot of its result, if it has one. -/
structure Slotted (entry : List IR.Instruction) (slot : Option IR.Value) : Prop where
  closed : ∀ name ∈ IR.external entry, name ∈ ([] : List IR.LocalName)
  operands : ∀ value ∈ IR.operands entry, Known ⟨results entry, []⟩ value
  named : slots entry ⊆ ["ReturnValue"] ∧ (slots entry).Nodup
  known : ∀ value ∈ slot, Known ⟨results entry, []⟩ value
  guarded : Guarded entry

section Body

variable {exit : String} {before last : Workbench} {index : Nat} {activation : Activation}
  {entry tail : List IR.Instruction} {draft final : Draft} {declared : List String}
  {start later : Definite} {code : Code} {terminator : IR.Terminator}
  {arguments given : List IR.Value}

theorem Slotted.supplies (slotted : Slotted entry activation.slot) (sound : Sound strict before)
    (valid : draft.Valid) (names : List String) :
    Supplies names ⟨results entry, arguments⟩ (before.inBody draft activation) := by
  apply supplies_inBody sound valid
  intro slot isSlot
  exact (slotted.known slot isSlot).mono ⟨List.Subset.refl _, List.nil_subset _⟩

theorem Declared.dominated {names : List String} (isDeclared : Declared before index)
    (grows : Grows (before.frame.draft.inDeclared index) entry draft)
    (slotted : Slotted entry activation.slot) (sound : Sound strict before)
    (knows : Knows ⟨results entry, arguments⟩ given)
    (proceeds : Proceeds strict exitLabel declared (before.inBody draft activation) code last)
    (carries : Carries given (some names) later (before.inBody draft activation) code last)
    (closes : Closes ⟨results entry, arguments⟩ last.frame.draft final tail terminator) :
    Block.Dominated final.blocks := by
  obtain ⟨ready, start⟩ := isDeclared.ready
  have entered := grows.builds ready
  have builds := entered.seq proceeds.builds
  obtain ⟨since, lays, continues⟩ := builds.jumping exitLabel
  rw [start] at lays
  obtain ⟨closedBody, _⟩ := carries names _ rfl knows
    (slotted.supplies sound (grows.valid isDeclared.valid) names)
  rw [closes.blocks]
  apply Block.dominated_append lays continues since.labelled.position?_exit _ closes.final
  · intro run passes
    refine (IR.closed_straight_iff.mpr closes.needs.results).mono ?_
    exact IR.Code.results_start passes
  · intro run passes name member
    obtain ⟨value, isOperand, same⟩ := List.mem_filterMap.mp member
    rcases List.mem_append.mp ((closes.uses value isOperand).result name same) with inEntry | inTail
    · exact List.mem_append_left _ (IR.Code.results_start passes inEntry)
    · exact List.mem_append_right _ inTail
  · refine IR.Code.Closed.seq_iff.mpr ⟨IR.closed_straight_iff.mpr slotted.closed, ?_⟩
    rintro run ⟨⟩
    exact closedBody

theorem Declared.complete {defined : IR.Function} (isDeclared : Declared before index)
    (grows : Grows (before.frame.draft.inDeclared index) entry draft)
    (slotted : Slotted entry activation.slot) (sound : Sound strict before)
    (knows : Knows ⟨results entry, defined.parameterValues⟩ given)
    (proceeds : Proceeds strict exitLabel declared (before.inBody draft activation) code last)
    (ranges : Ranges given (before.inBody draft activation) code last)
    (closes : Closes ⟨results entry, defined.parameterValues⟩ last.frame.draft final
      tail terminator)
    (found : final.function? = some defined) : Complete defined := by
  have builds := (grows.builds isDeclared.ready.1).seq proceeds.builds
  obtain ⟨since, _, _⟩ := builds.jumping exitLabel
  have first : Comprises [exitLabel] (before.frame.draft.inDeclared index).blocks [0] [] [] := by
    rw [isDeclared.blocks]
    exact .single (.inl (by decide))
  have held := builds.comprises_jumping (.inl (List.mem_singleton.mpr rfl)) first
  have whole := held.close since.labelled.exitUnused (.inl (by decide)) tail closes.final
  rw [← closes.blocks] at whole
  have blocks : final.blocks = defined.blocks := by
    rw [Draft.blocks, found]
    rfl
  rw [blocks] at whole
  -- Everything that is used after the entry.
  obtain ⟨uses, _⟩ := ranges _ knows fun names =>
    slotted.supplies sound (grows.valid isDeclared.valid) names
  have usesTail : Uses (Locals.mk (results entry) defined.parameterValues ++
      results code.instructions) tail terminator.operands := by
    refine Uses.mono ⟨fun value member => ?_, closes.needs.plain⟩ (Locals.subset_append _ _)
    rcases List.mem_append.mp member with inside | isOperand
    · exact closes.needs.operands value inside
    · exact closes.uses value isOperand
  have usesAll := uses.append usesTail
  apply whole.complete
  · intro other isExit
    have same : other = exitLabel := by
      rcases List.mem_append.mp isExit with isExit | isExit
      · exact List.mem_singleton.mp isExit
      · exact IR.Code.eq_of_mem_exits isExit
    rw [same, ← blocks, closes.blocks]
    exact ⟨_, List.mem_append_right _ List.mem_cons_self, rfl⟩
  · intro value member
    have split : value ∈ IR.operands entry ∨
        value ∈ IR.operands (code.instructions ++ tail) ++
          (code.conditions ++ terminator.operands) := by
      simpa [IR.operands, Code.instructions, Code.conditions, or_assoc] using member
    have names : results ([] ++ (Code.seq (.straight entry) code).instructions ++ tail) =
        results entry ++ results (code.instructions ++ tail) := by
      rw [← IR.results_append, ← List.append_assoc]
      rfl
    rw [names]
    rcases split with inEntry | later
    · exact (slotted.operands value inEntry).mono
        ⟨List.subset_append_left _ _, List.nil_subset _⟩
    · exact usesAll.operands value later
  · have same : slots ([] ++ (Code.seq (.straight entry) code).instructions ++ tail) =
        slots entry := by
      have all : slots (entry ++ (code.instructions ++ tail)) =
          slots entry ++ slots (code.instructions ++ tail) := by
        rw [slots, IR.results_append, List.filterMap_append]
        rfl
      rw [usesAll.slots, List.append_nil, ← List.append_assoc] at all
      exact all
    rw [same]
    exact slotted.named
  · have entered : (before.frame.draft.inDeclared index).All Guarded := by
      intro block member
      rw [isDeclared.blocks, List.mem_singleton] at member
      rw [member]
      exact .nil
    have guarded := closes.outside.guarded
      (proceeds.guarded ((grows.outside slotted.guarded).guarded entered))
    rwa [Draft.All, blocks] at guarded

variable {function : IR.Function}

/-- The functions with code besides the one that was defined are as before. -/
theorem Goes.kept_inBody (goes : Goes strict declared (before.inBody draft activation) last)
    (grows : Grows (before.frame.draft.inDeclared index) entry draft) {other : Nat}
    (differs : other ≠ index) (found : before.frame.draft.functions[other]? = some function)
    (written : function.blocks ≠ []) : last.frame.draft.functions[other]? = some function := by
  rw [← functions_inDeclared differs] at found
  have inside := (List.getElem?_eq_some_iff.mp found).1
  have atEntry : draft.functions[other]? = some function := by
    rw [grows.others other (by exact differs) inside, found]
  apply goes.kept other function _ atEntry written
  change other ≠ draft.place.function
  rw [grows.place]
  exact differs

theorem Stands.program (stands : Stands strict exit before)
    (top : before.frame.draft.place.function = 0) :
    ∃ program, before.frame.draft.functions[0]? = some program ∧ program.blocks ≠ [] ∧
      before.frame.draft.blocks = program.blocks := by
  obtain ⟨program, found, same⟩ := stands.ready.labelled.valid.found
  unfold Draft.function? at found
  rw [top] at found
  refine ⟨program, found, ?_, same⟩
  rw [← same]
  exact stands.ready.blocks_ne_nil

/-- The bench is sound when lowering goes on after a function. -/
theorem Declared.sound_outOfBody (isDeclared : Declared before index) (sound : Sound strict before)
    (soundEnded : Sound strict { last with frame := { last.frame with draft := final } })
    (function : final.place.function = index)
    (finished : ∀ defined, final.function? = some defined →
      (strict → Block.Dominated defined.blocks) ∧ Complete defined)
    (program : final.functions[0]? = before.frame.draft.functions[0]?) :
    Sound strict (last.outOfBody before final) := by
  constructor
  · change final.functions[0]?.map IR.Function.name = _
    rw [program]
    exact sound.program
  · intro other defined notProgram _ found
    have found : final.functions[other]? = some defined := found
    by_cases here : other = index
    · apply finished
      unfold Draft.function?
      rw [function, ← here, found]
    · apply soundEnded.finished other defined notProgram _ found
      change other ≠ final.place.function
      rw [function]
      exact here
  · exact soundEnded.named
  · intro _
    exact isDeclared.top
  · exact sound.inScope
  · exact soundEnded.file

/-- The function that was written is the one that was declared. -/
theorem Declared.head_defined {defined : IR.Function} (isDeclared : Declared before index)
    (signed : before.frame.draft.functions[index]? = some function)
    (grows : Grows (before.frame.draft.inDeclared index) entry draft) (guarded : Guarded entry)
    (goes : Goes strict declared (before.inBody draft activation) last)
    (outside : Outside last.frame.draft final) (found : final.function? = some defined) :
    head defined = head function := by
  obtain ⟨other, foundOther, entered, _⟩ := isDeclared.function?
  rw [signed, Option.some.injEq] at foundOther
  have heads : final.function?.map head =
      (before.frame.draft.inDeclared index).function?.map head :=
    outside.head.trans (goes.head.trans (grows.outside guarded).head)
  rw [found, entered, ← foundOther] at heads
  exact Option.some.inj heads

/-- The body of a declared function is lowered, and lowering goes on where it was. -/
theorem Declared.passes (isDeclared : Declared before index)
    (signed : before.frame.draft.functions[index]? = some function)
    (stands : Stands strict exit before)
    (grows : Grows (before.frame.draft.inDeclared index) entry draft)
    (slotted : Slotted entry activation.slot)
    (knows : Knows ⟨results entry, function.parameterValues⟩ given)
    (proceeds : Proceeds strict exitLabel declared (before.inBody draft activation) code last)
    (settled : strict → ∃ names, start = some names)
    (carries : Carries given start later (before.inBody draft activation) code last)
    (ranges : Ranges given (before.inBody draft activation) code last)
    (closes : Closes ⟨results entry, function.parameterValues⟩ last.frame.draft final tail
      terminator) : Passes strict exit before (last.outOfBody before final) := by
  obtain ⟨ready, _⟩ := isDeclared.ready
  have builds := (grows.builds ready).seq proceeds.builds
  have finished : ∀ defined, final.function? = some defined →
      (strict → Block.Dominated defined.blocks) ∧ Complete defined := by
    intro defined found
    constructor
    · intro isStrict
      obtain ⟨names, rfl⟩ := settled isStrict
      have dominated :=
        isDeclared.dominated grows slotted stands.sound knows proceeds carries closes
      unfold Draft.blocks at dominated
      rw [found] at dominated
      exact dominated
    · have same := isDeclared.head_defined signed grows slotted.guarded proceeds.toGoes
        closes.outside found
      have parameters : (head defined).parameterValues = (head function).parameterValues := by
        rw [same]
      change defined.parameterValues = function.parameterValues at parameters
      rw [← parameters] at knows closes
      exact isDeclared.complete grows slotted stands.sound knows proceeds ranges closes found
  have function : final.place.function = index := by
    rw [closes.function, builds.since.function]
    rfl
  -- The bench between the end of the function and the return to where it was defined.
  have ended : Goes strict [] last { last with frame := { last.frame with draft := final } } :=
    .outside proceeds.sound (builds.since.blocks_ne_nil ready.blocks_ne_nil) closes.outside
      closes.function ⟨rfl, fun _ => rfl, rfl, rfl, rfl, rfl⟩
  have goes := proceeds.toGoes.trans ended
  obtain ⟨program, found, written, blocks⟩ := stands.program isDeclared.top
  have programKept : final.functions[0]? = some program :=
    goes.kept_inBody grows (Ne.symm isDeclared.other) found written
  have sound : Sound strict (last.outOfBody before final) :=
    isDeclared.sound_outOfBody stands.sound ended.sound function finished
      (programKept.trans found.symm)
  have unchanged :
      (last.outOfBody before final).frame.draft.blocks = before.frame.draft.blocks := by
    rw [blocks, Draft.blocks, Draft.function?]
    change
      ((final.functions[before.frame.draft.place.function]?).map IR.Function.blocks).getD [] = _
    rw [isDeclared.top, programKept]
    rfl
  have temporaries := Nat.le_trans builds.since.temporaries closes.outside.temporaries
  apply Passes.of_goes
  · refine ⟨sound, rfl, ?_, fun _ _ => rfl, rfl, rfl, rfl, temporaries, ?_, ?_⟩
    · intro other defined _ foundOther isWritten
      by_cases here : other = index
      · obtain ⟨signed, foundSigned, empty, _⟩ := isDeclared.empty
        rw [here, foundSigned, Option.some.injEq] at foundOther
        rw [← foundOther] at isWritten
        exact absurd empty isWritten
      · exact goes.kept_inBody grows here foundOther isWritten
    · change final.functions[before.frame.draft.place.function]?.map head = _
      unfold Draft.function?
      rw [isDeclared.top, programKept, found]
    · unfold Draft.All
      rw [unchanged]
      exact id
  · apply stands.ready.builds
    · rfl
    · change before.frame.draft.place.function < final.functions.length
      rw [isDeclared.top]
      exact (List.getElem?_eq_some_iff.mp programKept).1
    · rw [appended_nil]
      exact unchanged
    · exact temporaries
    · intro base
      exact Nat.le_trans (builds.since.labels base) (closes.labels base)
    · exact closes.strays.trans (builds.strays_jumping exitLabel)

end Body

/-! ## Heads of functions -/

theorem declare_named (function : IR.Function) (draft : Draft) :
    ∃ declared, (Emit.declare function draft).2.functions[(Emit.declare function draft).1]? =
      some declared ∧ declared.name = function.name := by
  unfold Emit.declare Emit.functionIndex?
  simp only [bind, StateT.bind, get, getThe, MonadStateOf.get, StateT.get, pure]
  cases search : draft.functions.findIdx? (fun other => other.name == function.name) with
  | some index =>
    obtain ⟨inside, same, _⟩ := List.findIdx?_eq_some_iff_getElem.mp search
    refine ⟨draft.functions[index], ?_, by simpa using same⟩
    exact List.getElem?_eq_getElem inside
  | none =>
    refine ⟨function, ?_, rfl⟩
    exact List.getElem?_concat_length

private theorem declareSignature_named (function : Signature) (draft : Draft) :
    ∃ declared,
      (declareSignature function draft).2.functions[(declareSignature function draft).1]? =
        some declared ∧ declared.name = function.name :=
  declare_named _ _

/-- The name of a function is not that of the program or of a routine that copies. -/
theorem ofFunction_apart (module symbol : String) :
    Name.ofFunction module symbol ≠ "main" ∧ ¬ IsCopier (Name.ofFunction module symbol) := by
  constructor
  · intro same
    have texts := congrArg String.toList same
    simp [Name.ofFunction, Name.functionMark] at texts
  · rintro ⟨entity, same⟩
    have texts := congrArg String.toList same
    simp [Name.ofFunction, Name.functionMark] at texts

/-- The slot of the result of a function is made at its entry, if it has a result. -/
theorem resultSlot?_slotted (result : Option Ty) (valid : draft.Valid) :
    ∃ entry, Grows draft entry ((result.mapM fun type => do
        resultSlot (← slotLayout type) : Emit (Option IR.Value)) draft).2 ∧
      Slotted entry ((result.mapM fun type => do
        resultSlot (← slotLayout type) : Emit (Option IR.Value)) draft).1 := by
  cases result with
  | none =>
    refine ⟨[], .of_same rfl rfl rfl rfl rfl, ⟨?_, ?_, ?_, nofun, .nil⟩⟩
    all_goals simp [IR.external, IR.operands, slots]
  | some type =>
    have layout : Emits {} (slotLayout type) fun _ _ => True := .slotLayout type
    obtain ⟨code, grows, needs, _⟩ := layout draft valid
    rw [Option.mapM_some, map_eq_pure_bind]
    let slot : IR.Instruction :=
      ⟨some (.named "ReturnValue"), .alloca (slotLayout type draft).1 none⟩
    have fresh : ∀ name, slot.result = some name → name.IsWithin
        (slotLayout type draft).2.temporaries (slotLayout type draft).2.temporaries := by
      rintro name ⟨⟩ index ⟨⟩
    refine ⟨code ++ [slot], grows.trans (.instruction slot (Nat.le_refl _) fresh) valid,
      ⟨?_, ?_, ?_, ?_, needs.guarded.snoc trivial⟩⟩
    · intro name member
      rcases IR.mem_external_append.mp member with here | ⟨there, _⟩
      · exact needs.results name here
      · simp [slot, IR.external, IR.Instruction.uses, IR.Operation.operands, IR.resultNames]
          at there
    · intro value member
      have inside : value ∈ IR.operands code := by
        simpa [IR.operands, slot, IR.Operation.operands] using member
      apply (needs.operands value inside).mono
      rw [IR.results_append]
      exact ⟨List.subset_append_left _ _, List.Subset.refl _⟩
    · have all : slots (code ++ [slot]) = slots code ++ ["ReturnValue"] := by
        rw [slots, IR.results_append, List.filterMap_append]
        rfl
      rw [all, needs.uses.slots]
      simp
    · rintro value ⟨⟩
      exact (by simp [IR.results, slot] :
        IR.LocalName.named "ReturnValue" ∈ results (code ++ [slot]))

/-- A primitive parameter is stored in a slot of its own. -/
theorem Emits.spill {value : IR.Value} (type : Ty) (isKnown : Known known value) :
    Emits known (do
      let slot ← Emit.alloca (← Lowering.slotLayout type) none
      Emit.store value slot
      return slot) Known :=
  .bind (.slotLayout type) fun _ layout subset₁ _ =>
    .bind (.alloca layout (by simp)) fun _ _ subset₂ slotKnown =>
      .bind (.store ((isKnown.mono subset₁).mono subset₂) slotKnown) fun _ _ subset _ =>
        .pure (slotKnown.mono subset)

namespace Advances

variable {given : List IR.Value} {exit : String} {definite : Definite}
  {declared : List String} {leaves : Bool}

/-- A name that was declared is not counted as definite. -/
theorem forget {name : String} {lowering : Lower Unit}
    (advances :
      Advances strict given exit definite (definite.adding name) declared leaves lowering) :
    Advances strict given exit definite definite declared leaves lowering := by
  intro before after stands outcome
  obtain ⟨code, proceeds, isLeaving, carries, ranges⟩ := advances before after stands outcome
  refine ⟨code, proceeds, isLeaving, ?_, ranges⟩
  intro names known same knows supplies
  obtain ⟨closed, ends⟩ := carries names known same knows supplies
  refine ⟨closed, ?_⟩
  intro run runs
  obtain ⟨more, isMore, suppliesAfter⟩ := ends run runs
  rw [same] at isMore
  cases isMore
  exact ⟨names, same, suppliesAfter.subset (List.subset_cons_self _ _)⟩

theorem bindParameters (parameters : List (IR.Value × String × Ty))
    (areGiven : parameters.map Prod.fst ⊆ given) :
    Advances strict given exit definite definite (parameters.map fun parameter => parameter.2.1)
      false (Lowering.bindParameters parameters) := by
  induction parameters generalizing given with
  | nil => exact pure
  | cons parameter rest ih =>
    obtain ⟨value, name, type⟩ := parameter
    have valueGiven : value ∈ given := areGiven List.mem_cons_self
    have restGiven : rest.map Prod.fst ⊆ given := fun _ member =>
      areGiven (List.mem_cons_of_mem _ member)
    rw [Lowering.bindParameters]
    split
    · exact seq (bindGiven name type valueGiven).forget (ih restGiven)
    · refine emitting (fun known knows => .spill type (knows value valueGiven)) fun slot => ?_
      have binds : Advances strict (given ++ [slot]) exit definite (definite.adding name) [name]
          false (Lower.bindName name slot type) := bindGiven name type (by simp)
      exact seq binds.forget (ih (List.subset_append_of_subset_left _ restGiven))

end Advances

/-! ## The whole definition -/

/-- What is known when the parameters of a function are about to be bound. -/
structure Entering (strict : Prop) (exit : String) (before : Workbench) (suspended : Suspension)
    (declared : Workbench) (index : Nat) (entry : List IR.Instruction) (draft : Draft) : Prop where
  passes : Passes strict exit before declared
  isDeclared : Declared declared index
  grows : Grows (declared.frame.draft.inDeclared index) entry draft
  slotted : Slotted entry suspended.activation.slot
  scopes : suspended.scopes = declared.frame.scopes
  place : suspended.place = declared.frame.draft.place

/-- A function that the module did not know is declared without code. -/
theorem Sound.declared {after : Workbench} {function : IR.Function} {symbol : String}
    (sound : Sound strict before) (top : before.frame.draft.place.function = 0)
    (unknown : before.frame.module.functions.contains function.name = false)
    (soundAfter : Sound strict after) (outside : Outside before.frame.draft after.frame.draft)
    (place : after.frame.draft.place.function = before.frame.draft.place.function)
    (found : after.frame.draft.functions[index]? = some function)
    (mangled : function.name = Name.ofFunction module symbol)
    (isKnown : after.frame.module.functions.contains function.name = true) :
    Declared after index := by
  obtain ⟨notProgram, notCopier⟩ := ofFunction_apart module symbol
  rw [← mangled] at notProgram notCopier
  have other : index ≠ 0 := by
    rintro rfl
    have program := soundAfter.program
    rw [found] at program
    exact notProgram (Option.some.inj program)
  have differs : index ≠ before.frame.draft.place.function := by rwa [top]
  refine ⟨by rw [place, top], other, function, found, ?_, isKnown⟩
  rcases outside.found differs found with old | empty | ⟨isCopier, _⟩
  · rcases sound.named index function other old with empty | isCopier | isOld
    · exact empty
    · exact absurd isCopier notCopier
    · rw [unknown] at isOld
      cases isOld
  · exact empty
  · exact absurd isCopier notCopier

/-- The head of a function is resolved, recorded and declared. -/
theorem declared_of_head {resolved recorded declared : Workbench} {function : Signature}
    (stands : Stands strict exit before) (top : before.frame.draft.place.function = 0)
    (mangled : prototype.name = Name.ofFunction module prototype.symbol)
    (unknown : before.frame.module.functions.contains prototype.name = false)
    (resolves : resolveHead prototype before = .ok function resolved)
    (records : Lower.modifyModule (fun module =>
      { module with functions := module.functions.insert function.name function }) resolved =
        .ok () recorded)
    (declares : Lower.emit (declareSignature function) recorded = .ok index declared) :
    Passes strict exit before declared ∧ Declared declared index := by
  have evaluates : Evaluates (resolveHead prototype) := .resolveHead prototype.consults_all
  have keeps := evaluates.keeps resolves
  have resolving : Passes strict exit before resolved :=
    .evaluation evaluates (fun _ _ => (Draws.resolveHead prototype).weaken fun _ _ _ => trivial)
      stands resolves
  have named : function.name = prototype.name := by
    obtain ⟨_, _, _, _, named⟩ := Draws.resolveHead prototype before function resolved
      (Workbench.binds stands.ready.labelled.valid stands.sound.file [] []) resolves
    exact named
  have recording : Untouched resolved recorded := by
    cases records
    exact ⟨rfl, rfl, rfl, fun _ isKnown => (Table.contains_insert ..).mpr (.inr isKnown)⟩
  have isRecorded : recorded.frame.module.functions.contains function.name = true := by
    cases records
    exact (Table.contains_insert ..).mpr (.inl rfl)
  have toRecorded := resolving.trans (.untouched recording (resolving.stands stands))
  have standsRecorded := toRecorded.stands stands
  have declaring : Passes strict exit recorded declared :=
    .evaluation (.emit _) (fun _ _ => .emit (.declareSignature function)) standsRecorded declares
  have whole := toRecorded.trans declaring
  refine ⟨whole, ?_⟩
  have keepsDeclared := Consults.keeps (.emit (declareSignature function)) declares
  have emitted := emit_eq_ok declares
  have emits : Emits {} (declareSignature function) fun _ _ => True := .declareSignature function
  obtain ⟨code, grows, needs, _⟩ := emits recorded.frame.draft standsRecorded.ready.labelled.valid
  obtain ⟨found, foundAt, sameName⟩ := declareSignature_named function recorded.frame.draft
  rw [emitted] at grows foundAt
  rw [recording.draft] at grows
  have standsResolved := resolving.stands stands
  obtain ⟨_, proceeds, _⟩ := resolving
  apply standsResolved.sound.declared _ _ (whole.stands stands).sound (grows.outside needs.guarded)
    _ foundAt (sameName.trans (named.trans mangled))
  · rw [keepsDeclared.module, sameName]
    exact isRecorded
  · rw [proceeds.function, top]
  · rw [keeps.module, sameName, named]
    exact unknown
  · rw [grows.place]

theorem Declared.enters {bench : Workbench} (isDeclared : Declared bench index) :
    ((do Emit.enterBlock (← Emit.newBlock "FunctionEntry")) : Emit Unit)
        { bench.frame.draft with place := ⟨index, 0⟩ } =
      ((), bench.frame.draft.inDeclared index) := by
  obtain ⟨function, found, empty, _⟩ := isDeclared.empty
  have blocks : ({ bench.frame.draft with place := ⟨index, 0⟩ } : Draft).blocks = [] := by
    unfold Draft.blocks Draft.function?
    dsimp only
    rw [found, Option.map_some, empty]
    rfl
  have added := Emit.newBlock_eq { bench.frame.draft with place := ⟨index, 0⟩ } "FunctionEntry"
  rw [blocks] at added
  change ((), ((Emit.newBlock "FunctionEntry"
    { bench.frame.draft with place := ⟨index, 0⟩ }).2.entering
    (Emit.newBlock "FunctionEntry" { bench.frame.draft with place := ⟨index, 0⟩ }).1)) = _
  rw [added]
  rfl

private theorem map_fst_zip_sublist {α β : Type} (values : List α) (others : List β) :
    ((values.zip others).map Prod.fst).Sublist values := by
  induction values generalizing others with
  | nil => simp
  | cons value rest ih =>
    cases others with
    | nil => simp
    | cons other later => simpa using ih later

theorem enterFunction_spec {entered : Workbench} (stands : Stands strict exit before)
    (mangled : prototype.name = Name.ofFunction module prototype.symbol)
    (outcome : enterFunction line prototype before = .ok suspended entered) :
    ∃ declared index entry draft function parameters,
      Entering strict exit before suspended declared index entry draft ∧
      declared.frame.draft.functions[index]? = some function ∧
      (parameters.map Prod.fst).Sublist function.parameterValues ∧
      bindParameters parameters (declared.inBody draft suspended.activation) = .ok () entered := by
  unfold enterFunction at outcome
  obtain ⟨nested, _, ⟨⟩, outcome⟩ := bind_eq_ok outcome
  split at outcome
  · obtain ⟨_, _, ⟨⟩, _⟩ := bind_eq_ok outcome
  next shallow =>
  obtain ⟨current, _, ⟨⟩, outcome⟩ := bind_eq_ok outcome
  split at outcome
  · obtain ⟨_, _, ⟨⟩, _⟩ := bind_eq_ok outcome
  next unknown =>
  obtain ⟨function, resolved, resolves, outcome⟩ := bind_eq_ok outcome
  obtain ⟨⟨⟩, recorded, records, outcome⟩ := bind_eq_ok outcome
  obtain ⟨index, declared, declares, outcome⟩ := bind_eq_ok outcome
  obtain ⟨⟨⟩, traced, traces, outcome⟩ := bind_eq_ok outcome
  obtain ⟨outside, _, ⟨⟩, outcome⟩ := bind_eq_ok outcome
  obtain ⟨⟨⟩, placed, places, outcome⟩ := bind_eq_ok outcome
  obtain ⟨⟨⟩, opened, opens, outcome⟩ := bind_eq_ok outcome
  obtain ⟨slot, made, slots, outcome⟩ := bind_eq_ok outcome
  obtain ⟨⟨⟩, inner, pushes, outcome⟩ := bind_eq_ok outcome
  obtain ⟨⟨⟩, bound, binds, outcome⟩ := bind_eq_ok outcome
  cases outcome
  have top : before.frame.draft.place.function = 0 := by
    apply stands.sound.top
    simpa using shallow
  obtain ⟨passes, isDeclared⟩ :=
    declared_of_head stands top mangled (by simpa using unknown) resolves records declares
  -- The entry of the function.
  obtain ⟨entry, grows, slotted⟩ := resultSlot?_slotted function.result isDeclared.valid
  obtain ⟨signed, foundSigned, _⟩ := isDeclared.empty
  have tracing : Untouched declared traced := by
    cases traces
    exact ⟨rfl, rfl, rfl, fun _ isKnown => isKnown⟩
  have entering := isDeclared.enters
  have draft : placed.frame.draft = { declared.frame.draft with place := ⟨index, 0⟩ } := by
    cases places
    cases traces
    rfl
  have opening := emit_eq_ok opens
  rw [draft, entering, Prod.mk.injEq] at opening
  have slotting := emit_eq_ok slots
  rw [← opening.2] at slotting
  rw [slotting] at grows slotted
  have inside : inner = traced.inBody made.frame.draft ⟨function.result, slot⟩ := by
    cases pushes
    cases slots
    cases opens
    cases places
    rfl
  rw [inside] at binds
  refine ⟨traced, index, entry, made.frame.draft, signed, _, ⟨?_, ?_, ?_, ?_, rfl, rfl⟩, ?_, ?_,
    binds⟩
  · exact passes.trans (.untouched tracing (passes.stands stands))
  · cases traces
    exact ⟨isDeclared.top, isDeclared.other, isDeclared.empty⟩
  · rw [tracing.draft]
    exact grows
  · exact slotted
  · rw [tracing.draft]
    exact foundSigned
  · rw [tracing.draft, foundSigned]
    exact map_fst_zip_sublist _ _

/-- The body of a function that was entered starts at its first block. -/
theorem Entering.stands {inside : Workbench} {entry : List IR.Instruction}
    (entering : Entering strict exit before suspended inside index entry draft)
    (stands : Stands strict exit before) :
    Stands strict exitLabel (inside.inBody draft suspended.activation) where
  ready := (entering.grows.builds entering.isDeclared.ready.1).ready rfl
  sound := entering.isDeclared.sound (entering.passes.stands stands).sound _ entering.grows
    entering.slotted.guarded
  leaving _ := rfl

theorem Stands.enterFunction {entered : Workbench} (stands : Stands strict exit before)
    (mangled : prototype.name = Name.ofFunction module prototype.symbol)
    (outcome : enterFunction line prototype before = .ok suspended entered) :
    Stands strict exitLabel entered := by
  obtain ⟨inside, index, entry, draft, function, parameters, entering, _, listed, binds⟩ :=
    enterFunction_spec stands mangled outcome
  have binding : Advances strict function.parameterValues exitLabel none none _ false _ :=
    .bindParameters parameters listed.subset
  obtain ⟨code, proceeds, goesOn, _⟩ := binding _ entered (entering.stands stands) binds
  exact proceeds.stands (entering.stands stands) goesOn

/-- A function is complete when it was defined, and dominated if its body mentions only names that
are definite; lowering goes on where it was defined. -/
theorem Advances.functionDefinition {definite start later : Definite} {body : Lower Unit}
    {declared : List String} {leaves : Bool}
    (mangled : prototype.name = Name.ofFunction module prototype.symbol)
    (settled : strict → ∃ names, start = some names)
    (advances : Advances strict [] exitLabel start later declared leaves body) :
    Advances strict [] exit definite definite [] false
      (Lowering.functionDefinition line prototype body) := by
  intro before after stands outcome
  obtain ⟨suspended, entered, enters, outcome⟩ := bind_eq_ok outcome
  obtain ⟨⟨⟩, last, lowers, leaving⟩ := bind_eq_ok outcome
  obtain ⟨inside, index, entry, draft, function, parameters, entering, signed, listed, binds⟩ :=
    enterFunction_spec stands mangled enters
  have standsInside := entering.passes.stands stands
  -- Parameters and body, one after the other.
  have whole := (Advances.bindParameters parameters listed.subset).seq advances.give
  have outcomeBody : (Lowering.bindParameters parameters >>= fun _ => body)
      (inside.inBody draft suspended.activation) = .ok () last := by
    change EStateM.bind _ _ _ = _
    rw [EStateM.bind, binds]
    exact lowers
  obtain ⟨code, proceeds, _, carries, ranges⟩ := whole _ last (entering.stands stands) outcomeBody
  have knows : Knows ⟨results entry, function.parameterValues⟩ function.parameterValues := by
    intro value member
    obtain ⟨position, bound, rfl⟩ := List.mem_mapIdx.mp member
    exact member
  have slotKnown : ∀ slot ∈ suspended.activation.slot,
      Known ⟨results entry, function.parameterValues⟩ slot := fun slot isSlot =>
    (entering.slotted.known slot isSlot).mono ⟨List.Subset.refl _, List.nil_subset _⟩
  obtain ⟨tail, terminator, closes⟩ :=
    closeFunction_closes slotKnown proceeds.builds.since.labelled.valid
  have passes := entering.isDeclared.passes signed standsInside entering.grows entering.slotted
    knows proceeds settled carries ranges closes
  have same :
      after = last.outOfBody inside (closeFunction suspended.activation last.frame.draft).2 := by
    cases leaving
    rw [entering.scopes, entering.place]
    rfl
  rw [← same] at passes
  obtain ⟨wholeCode, wholeProceeds, goesOn, wholeCarries, wholeRanges⟩ :=
    entering.passes.trans passes
  exact ⟨wholeCode, wholeProceeds, goesOn, wholeCarries definite, wholeRanges⟩

end Kronk.Lowering
