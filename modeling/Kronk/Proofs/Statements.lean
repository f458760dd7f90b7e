import Kronk.Proofs.Definite

/-!
# The code of statements

What lowering a statement makes of the function it stands in: structured code, in which every result
that is used was defined before, as long as the statement mentions names that are definite.
-/

namespace Kronk.Lowering

open IR (Block Code results)
open Source (Definite)

variable {strict : Prop}

variable {more : Locals}

def Workbench.binding? (bench : Workbench) (name : String) : Option Binding :=
  (bench.frame.scopes.headD {}).bindings.get? name

def Workbench.activation? (bench : Workbench) : Option Activation :=
  bench.frame.scopes.findSome? Scope.activation

/-- The addresses that some names stand for are known, and so is the slot of the result. -/
structure Supplies (names : List String) (known : Locals) (bench : Workbench) : Prop
    extends Binds names known bench where
  slot : ∀ activation, bench.activation? = some activation → ∀ slot ∈ activation.slot,
    Known known slot

/-- The functions besides the one that is being written and the program are complete, and dominated
if that is asked for; those with code are known to the module or copy an entity. -/
structure Sound (strict : Prop) (bench : Workbench) : Prop where
  program : bench.frame.draft.functions[0]?.map IR.Function.name = some "main"
  finished : ∀ (index : Nat) (function : IR.Function), index ≠ 0 →
    index ≠ bench.frame.draft.place.function →
    bench.frame.draft.functions[index]? = some function →
    (strict → Block.Dominated function.blocks) ∧ Complete function
  named : ∀ (index : Nat) (function : IR.Function), index ≠ 0 →
    bench.frame.draft.functions[index]? = some function → function.blocks = [] ∨
      IsCopier function.name ∨ bench.frame.module.functions.contains function.name = true
  top : bench.frame.scopes.length ≤ 1 → bench.frame.draft.place.function = 0
  inScope : 0 < bench.frame.scopes.length
  file : bench.frame.fileName.isLocal = false

/-- Only the code has changed, and which aggregates are fresh. -/
structure Keeps (before after : Workbench) : Prop where
  module : after.frame.module = before.frame.module
  binding : ∀ name, after.binding? name = before.binding? name
  activation : after.activation? = before.activation?
  depth : after.frame.scopes.length = before.frame.scopes.length
  outer : after.frame.scopes.tail = before.frame.scopes.tail
  file : after.frame.fileName = before.frame.fileName

theorem Keeps.refl (bench : Workbench) : Keeps bench bench :=
  ⟨rfl, fun _ => rfl, rfl, rfl, rfl, rfl⟩

variable {before : Workbench} {α : Type} {value : α} {exit : String} {function : IR.Function}
  {known : Locals} {given : List IR.Value}

theorem Keeps.draft {after : Workbench} (keeps : Keeps before after) (draft : Draft) :
    Keeps before { after with frame := { after.frame with draft := draft } } :=
  ⟨keeps.module, keeps.binding, keeps.activation, keeps.depth, keeps.outer, keeps.file⟩

theorem Keeps.recordFresh (before : Workbench) (address : IR.Value) (type : Ty) :
    Preserves (Keeps before) (fun _ => True) (Lower.recordFresh address type) := by
  rintro ⟨session, module, draft, scopes, fileName⟩ keeps
  have binding := keeps.binding
  have activation := keeps.activation
  have depth := keeps.depth
  have outer := keeps.outer
  cases scopes with
  | nil => exact ⟨keeps.module, binding, activation, depth, outer, keeps.file⟩
  | cons innermost rest => exact ⟨keeps.module, binding, activation, depth, outer, keeps.file⟩

theorem Consults.keeps {computation : Lower α} (evaluates : Evaluates computation)
    {after : Workbench} (outcome : computation before = .ok value after) : Keeps before after := by
  have preserves : Preserves (Keeps before) (fun _ => True) computation :=
    evaluates.preserves (fun _ _ => trivial) (fun _ draft keeps => keeps.draft draft)
      (Keeps.recordFresh before)
  have final := preserves before (.refl before)
  rw [outcome] at final
  exact final

/-- Straight code is determined by what it was appended to. -/
theorem Grows.unique {before after : Draft} {code other : List IR.Instruction}
    (ready : Ready exit before) (first : Grows before code after)
    (second : Grows before other after) : code = other := by
  obtain ⟨block, found, _⟩ := ready.isOpen
  have same := (first.blocks ready.labelled.valid).symm.trans (second.blocks ready.labelled.valid)
  have entry := congrArg (fun blocks : List Block => blocks[before.place.block]?) same
  simp only [appended, Block.getElem?_modify_self found, Option.some.injEq] at entry
  have instructions := congrArg Block.instructions entry
  exact List.append_cancel_left instructions

private theorem dominated_nil : Block.Dominated [] := by
  intro done place name _ uses
  cases uses with
  | instruction found _ _ => cases found
  | terminator found _ _ _ => cases found

private theorem complete_nil (declares : function.blocks = []) : Complete function := by
  refine ⟨⟨?_, ?_, ?_, ?_⟩, ?_, ?_, ?_, ?_⟩
  all_goals simp [declares, slots]

theorem IsFinished.complete (finished : IsFinished function) :
    Block.Dominated function.blocks ∧ Complete function := by
  rcases finished with declared | ⟨_, dominated, complete⟩
  · rw [declared]
    exact ⟨dominated_nil, complete_nil declared⟩
  · exact ⟨dominated, complete⟩

/-- The functions besides the current one are as before, or they are new and finished. -/
theorem Outside.found {before after : Draft} (outside : Outside before after) {index : Nat}
    (other : index ≠ before.place.function) (found : after.functions[index]? = some function) :
    before.functions[index]? = some function ∨ IsFinished function := by
  by_cases inside : index < before.functions.length
  · rw [outside.others index other inside] at found
    exact .inl found
  · exact .inr (outside.added index function (Nat.le_of_not_lt inside) found)

/-- What happens outside of the current function keeps the bench sound. -/
theorem Sound.outside {after : Workbench} (sound : Sound strict before)
    (outside : Outside before.frame.draft after.frame.draft)
    (place : after.frame.draft.place.function = before.frame.draft.place.function)
    (keeps : Keeps before after) (written : before.frame.draft.blocks ≠ []) :
    Sound strict after := by
  have current : after.frame.draft.functions[before.frame.draft.place.function]?.map
      IR.Function.name =
        before.frame.draft.functions[before.frame.draft.place.function]?.map IR.Function.name := by
    have same := outside.named
    unfold Draft.function? at same
    rwa [place] at same
  constructor
  · by_cases here : 0 = before.frame.draft.place.function
    · rw [← here] at current
      rw [current]
      exact sound.program
    · obtain ⟨function, found, name⟩ := Option.map_eq_some_iff.mp sound.program
      have inside := (List.getElem?_eq_some_iff.mp found).1
      rw [outside.others 0 here inside]
      exact sound.program
  · intro index function notProgram other found
    rw [place] at other
    rcases outside.found other found with old | finished
    · exact sound.finished index function notProgram other old
    · exact ⟨fun _ => finished.complete.1, finished.complete.2⟩
  · intro index function notProgram found
    rw [keeps.module]
    by_cases here : index = before.frame.draft.place.function
    · subst here
      rw [found] at current
      obtain ⟨other, foundOther, same⟩ := Option.map_eq_some_iff.mp current.symm
      rcases sound.named _ other notProgram foundOther with empty | isNamed
      · refine absurd ?_ written
        rw [Draft.blocks, Draft.function?, foundOther]
        exact empty
      · rw [← same]
        exact .inr isNamed
    · rcases outside.found here found with old | declared | ⟨isCopier, _⟩
      · exact sound.named index function notProgram old
      · exact .inl declared
      · exact .inr (.inl isCopier)
  · rw [keeps.depth, place]
    exact sound.top
  · rw [keeps.depth]
    exact sound.inScope
  · rw [keeps.file]
    exact sound.file

theorem Ready.blocks_ne_nil {draft : Draft} (ready : Ready exit draft) : draft.blocks ≠ [] := by
  intro empty
  have inside := ready.inside
  rw [empty] at inside
  cases inside

def Knows (known : Locals) (given : List IR.Value) : Prop :=
  ∀ value ∈ given, Known known value

theorem Knows.mono (knows : Knows known given) (subset : known ⊆ more) : Knows more given :=
  fun value member => (knows value member).mono subset

theorem Knows.append {others : List IR.Value} (knows : Knows known given)
    (knowsOthers : Knows known others) : Knows known (given ++ others) := by
  intro value member
  rcases List.mem_append.mp member with first | second
  · exact knows value first
  · exact knowsOthers value second

theorem Knows.right {others : List IR.Value} (knows : Knows known (given ++ others)) :
    Knows known others :=
  fun value member => knows value (List.mem_append_right _ member)

theorem Known.knows {value : IR.Value} (isKnown : Known known value) : Knows known [value] := by
  intro other member
  rw [List.mem_singleton] at member
  subst member
  exact isKnown

theorem knows_all (values : List IR.Value) : Knows ⟨IR.resultNames values, values⟩ values := by
  intro value member
  cases value with
  | result name type => exact List.mem_filterMap.mpr ⟨_, member, rfl⟩
  | parameter position name type => exact member
  | _ => trivial

def Workbench.addresses (bench : Workbench) (names : List String) : List IR.Value :=
  names.filterMap fun name => (bench.binding? name).map Binding.address

/-- Whatever names stand for is known among the addresses that they stand for. -/
theorem Workbench.binds {bench : Workbench} (valid : bench.frame.draft.Valid)
    (file : bench.frame.fileName.isLocal = false) (names : List String) (given : List IR.Value) :
    Binds names ⟨IR.resultNames (bench.addresses names ++ given), bench.addresses names ++ given⟩
      bench where
  valid := valid
  bound name member found same := by
    have isBound : bench.binding? name = some found := same
    apply knows_all
    apply List.mem_append_left
    exact List.mem_filterMap.mpr ⟨name, member, by rw [isBound]; rfl⟩
  file := file

/-- An evaluation appends straight code, which is closed if what it mentions is known. -/
theorem Consults.straight {mentioned : List String} {computation : Lower α}
    {result : Locals → α → Prop} {after : Workbench} (evaluates : Evaluates computation)
    (draws : ∀ names known, mentioned ⊆ names → Knows known given →
      Draws names known computation result)
    (ready : Ready exit before.frame.draft) (sound : Sound strict before)
    (outcome : computation before = .ok value after) :
    ∃ code, Grows before.frame.draft code after.frame.draft ∧ Guarded code ∧ Keeps before after ∧
      ∀ names known, mentioned ⊆ names → Knows known given → Supplies names known before →
        Needs known code ∧ Supplies names (known ++ results code) after ∧
          result (known ++ results code) value := by
  have keeps := evaluates.keeps outcome
  have knows := (knows_all (before.addresses mentioned ++ given)).right
  obtain ⟨code, grows, wants, _, _⟩ := draws mentioned _ (List.Subset.refl _) knows before value
    after (Workbench.binds ready.labelled.valid sound.file mentioned given) outcome
  refine ⟨code, grows, wants.guarded, keeps, ?_⟩
  intro names known isMentioned knowsGiven supplies
  obtain ⟨other, growsOther, needs, binds, holds⟩ := draws names known isMentioned knowsGiven before
    value after supplies.toBinds outcome
  obtain rfl := growsOther.unique ready grows
  refine ⟨needs, ⟨binds, fun activation isActive slot isSlot => ?_⟩, holds⟩
  rw [keeps.activation] at isActive
  exact (supplies.slot activation isActive slot isSlot).mono (Locals.subset_append _ _)

/-! ## Names -/

def Workbench.binding (bench : Workbench) (name : String) (binding : Binding) : Workbench :=
  { bench with frame := { bench.frame with scopes :=
    match bench.frame.scopes with
    | [] => []
    | innermost :: outer =>
      { innermost with bindings := innermost.bindings.insert name binding } :: outer } }

section Binding

variable {bench : Workbench} {name : String} {newer : Binding}

theorem Workbench.binding?_binding (other : String) : (bench.binding name newer).binding? other =
      if other = name ∧ bench.frame.scopes ≠ [] then some newer else bench.binding? other := by
  obtain ⟨session, module, draft, scopes, file⟩ := bench
  cases scopes with
  | nil => simp [binding?, Workbench.binding]
  | cons innermost outer =>
    simp [binding?, Workbench.binding, Table.get?_insert]

theorem Workbench.activation?_binding :
    (bench.binding name newer).activation? = bench.activation? := by
  obtain ⟨session, module, draft, scopes, file⟩ := bench
  cases scopes with
  | nil => rfl
  | cons innermost outer => rfl

theorem Workbench.depth_binding :
    (bench.binding name newer).frame.scopes.length = bench.frame.scopes.length := by
  obtain ⟨session, module, draft, scopes, file⟩ := bench
  cases scopes with
  | nil => rfl
  | cons innermost outer => rfl

theorem Workbench.outer_binding :
    (bench.binding name newer).frame.scopes.tail = bench.frame.scopes.tail := by
  obtain ⟨session, module, draft, scopes, file⟩ := bench
  cases scopes with
  | nil => rfl
  | cons innermost outer => rfl

theorem Sound.binding (sound : Sound strict bench) : Sound strict (bench.binding name newer) where
  program := sound.program
  finished := sound.finished
  named := sound.named
  top := by
    rw [Workbench.depth_binding]
    exact sound.top
  inScope := by
    rw [Workbench.depth_binding]
    exact sound.inScope
  file := sound.file

theorem Supplies.binding {names : List String} {known : Locals}
    (supplies : Supplies names known bench) (isKnown : Known known newer.address) :
    Supplies (name :: names) known (bench.binding name newer) where
  valid := supplies.valid
  bound other member found same := by
    have isBound : (bench.binding name newer).binding? other = some found := same
    rw [Workbench.binding?_binding] at isBound
    split at isBound
    · cases isBound
      exact isKnown
    · next unbound =>
        rcases List.mem_cons.mp member with rfl | inside
        · -- Without a scope nothing is bound.
          have empty : bench.frame.scopes = [] := by simpa using unbound
          rw [Workbench.binding?, empty] at isBound
          cases isBound
        · exact supplies.bound other inside found isBound
  slot activation isActive := by
    rw [Workbench.activation?_binding] at isActive
    exact supplies.slot activation isActive
  file := supplies.file

end Binding

/-! ## Places between statements -/

/-- A place between two statements of a function. -/
structure Stands (strict : Prop) (exit : String) (bench : Workbench) : Prop where
  ready : Ready exit bench.frame.draft
  sound : Sound strict bench
  leaving : bench.activation?.isSome = true → exit = exitLabel

/-- Lowering went from one place of a function to another; of the names it bound only those it
declared, and of the functions that have code it changed only the current one. -/
structure Goes (strict : Prop) (declared : List String) (before after : Workbench) : Prop where
  sound : Sound strict after
  function : after.frame.draft.place.function = before.frame.draft.place.function
  kept : ∀ (index : Nat) (function : IR.Function), index ≠ before.frame.draft.place.function →
    before.frame.draft.functions[index]? = some function → function.blocks ≠ [] →
    after.frame.draft.functions[index]? = some function
  binding : ∀ name, name ∉ declared → after.binding? name = before.binding? name
  activation : after.activation? = before.activation?
  depth : after.frame.scopes.length = before.frame.scopes.length
  outer : after.frame.scopes.tail = before.frame.scopes.tail
  temporaries : before.frame.draft.temporaries ≤ after.frame.draft.temporaries
  head : after.frame.draft.function?.map head = before.frame.draft.function?.map head
  guarded : before.frame.draft.All Guarded → after.frame.draft.All Guarded

/-- Lowering went from one place of a function to another and made structured code. -/
structure Proceeds (strict : Prop) (exit : String) (declared : List String) (before : Workbench)
    (code : Code) (after : Workbench) : Prop extends Goes strict declared before after where
  builds : Builds exit before.frame.draft code after.frame.draft

/-- The code is closed wherever the definite names and the given operands are known, and what is
definite after it is known at the end of each of its runs. -/
def Carries (given : List IR.Value) (definite later : Definite) (before : Workbench)
    (code : Code) (after : Workbench) : Prop :=
  ∀ names known, definite = some names → Knows known given → Supplies names known before →
    code.Closed known.results ∧ ∀ run, code.Runs run →
      ∃ others, later = some others ∧ Supplies others (known ++ results run) after

/-- The code uses what is known before it or defined in it, and so do the names after it. -/
def Ranges (given : List IR.Value) (before : Workbench) (code : Code) (after : Workbench) : Prop :=
  ∀ known, Knows known given → (∀ names, Supplies names known before) →
    Uses known code.instructions code.conditions ∧
      ∀ names, Supplies names (known ++ results code.instructions) after

/-- Lowering makes structured code that carries on what is definite. -/
def Advances (strict : Prop) (given : List IR.Value) (exit : String) (definite later : Definite)
    (declared : List String) (leaves : Bool) (lowering : Lower Unit) : Prop :=
  ∀ before after, Stands strict exit before → lowering before = .ok () after →
    ∃ code, Proceeds strict exit declared before code after ∧ code.leaves = leaves ∧
      Carries given definite later before code after ∧ Ranges given before code after

namespace Goes

variable {before after : Workbench} {declared : List String}

theorem trans {middle : Workbench} {others : List String}
    (first : Goes strict declared before middle)
    (second : Goes strict others middle after) : Goes strict (declared ++ others) before after where
  sound := second.sound
  function := second.function.trans first.function
  kept index function other found written := by
    apply second.kept index function
    · rw [first.function]
      exact other
    · exact first.kept index function other found written
    · exact written
  binding name fresh := by
    rw [List.mem_append, not_or] at fresh
    rw [second.binding name fresh.2, first.binding name fresh.1]
  activation := second.activation.trans first.activation
  depth := second.depth.trans first.depth
  outer := second.outer.trans first.outer
  temporaries := Nat.le_trans first.temporaries second.temporaries
  head := second.head.trans first.head
  guarded isGuarded := second.guarded (first.guarded isGuarded)

theorem weaken {more : List String} (goes : Goes strict declared before after)
    (subset : declared ⊆ more) : Goes strict more before after :=
  { goes with binding := fun name fresh => goes.binding name fun member => fresh (subset member) }

theorem stands {exit : String} (goes : Goes strict declared before after)
    (stands : Stands strict exit before)
    (ready : Ready exit after.frame.draft) : Stands strict exit after where
  ready := ready
  sound := goes.sound
  leaving := by
    rw [goes.activation]
    exact stands.leaving

/-- The names that were not declared again still stand for known addresses. -/
theorem supplies (goes : Goes strict declared before after) (valid : after.frame.draft.Valid)
    {names : List String} {known : Locals} (supplies : Supplies names known before)
    (subset : known ⊆ more) : Supplies (names.filter fun name => name ∉ declared) more after where
  valid := valid
  bound name member found same := by
    have isBound : after.binding? name = some found := same
    obtain ⟨inside, fresh⟩ := List.mem_filter.mp member
    rw [goes.binding name (by simpa using fresh)] at isBound
    exact (supplies.bound name inside found isBound).mono subset
  slot activation isActive slot isSlot := by
    rw [goes.activation] at isActive
    exact (supplies.slot activation isActive slot isSlot).mono subset
  file := goes.sound.file

/-- Code was added outside of the current function only. -/
theorem outside (sound : Sound strict before) (written : before.frame.draft.blocks ≠ [])
    (outside : Outside before.frame.draft after.frame.draft)
    (place : after.frame.draft.place.function = before.frame.draft.place.function)
    (keeps : Keeps before after) : Goes strict [] before after where
  sound := sound.outside outside place keeps written
  function := place
  kept index function other found _ := by
    rw [outside.others index other (List.getElem?_eq_some_iff.mp found).1, found]
  binding name _ := keeps.binding name
  activation := keeps.activation
  depth := keeps.depth
  outer := keeps.outer
  temporaries := outside.temporaries
  head := outside.head
  guarded := outside.guarded

/-- Blocks of the current function were changed. -/
theorem emit {α : Type} {emission : Emit α} {value : α} (sound : Sound strict before)
    (written : before.frame.draft.blocks ≠ []) (stays : Local emission)
    (outcome : Lower.emit emission before = .ok value after) : Goes strict [] before after := by
  have same : after.frame = { before.frame with draft := (emission before.frame.draft).2 } := by
    cases outcome
    rfl
  have draft : after.frame.draft = (emission before.frame.draft).2 := by rw [same]
  have stays := stays before.frame.draft
  rw [← draft] at stays
  apply outside sound written (.of_stays stays) stays.function
  constructor
  · rw [same]
  · intro name
    rw [Workbench.binding?, same]
    rfl
  · rw [Workbench.activation?, same]
    rfl
  · rw [same]
  · rw [same]
  · rw [same]

end Goes

theorem emit_eq_ok {emission : Emit α} {after : Workbench}
    (outcome : Lower.emit emission before = .ok value after) :
    emission before.frame.draft = (value, after.frame.draft) := by
  cases outcome
  rfl

theorem Since.blocks_ne_nil {before after : Draft} (since : Since exit before after)
    (written : before.blocks ≠ []) : after.blocks ≠ [] := by
  have longer := since.extended.length_le
  rw [← List.length_pos_iff] at written ⊢
  omega

namespace Supplies

variable {names : List String} {known : Locals} {before : Workbench}

theorem subset {others : List String} (supplies : Supplies names known before)
    (subset : others ⊆ names) : Supplies others known before :=
  ⟨⟨supplies.valid, fun name member => supplies.bound name (subset member), supplies.file⟩,
    supplies.slot⟩

/-- A step that declares nothing keeps what is supplied. -/
theorem goes {after : Workbench} (supplies : Supplies names known before)
    (goes : Goes strict [] before after) (valid : after.frame.draft.Valid) (subset : known ⊆ more) :
    Supplies names more after := by
  have rest := goes.supplies valid supplies subset
  rwa [List.filter_eq_self.mpr (by simp)] at rest

end Supplies

namespace Proceeds

variable {exit : String} {before after : Workbench} {declared : List String} {code : Code}

theorem stands (proceeds : Proceeds strict exit declared before code after)
    (stands : Stands strict exit before)
    (goesOn : code.leaves = false) : Stands strict exit after :=
  proceeds.toGoes.stands stands (proceeds.builds.ready goesOn)

theorem seq {middle : Workbench} {others : List String} {later : Code}
    (first : Proceeds strict exit declared before code middle)
    (second : Proceeds strict exit others middle later after) :
    Proceeds strict exit (declared ++ others) before (.seq code later) after where
  toGoes := first.toGoes.trans second.toGoes
  builds := first.builds.seq second.builds

theorem straight {instructions : List IR.Instruction} (stands : Stands strict exit before)
    (grows : Grows before.frame.draft instructions after.frame.draft)
    (guarded : Guarded instructions) (keeps : Keeps before after) :
    Proceeds strict exit [] before (.straight instructions) after where
  toGoes := .outside stands.sound stands.ready.blocks_ne_nil (grows.outside guarded)
    (by rw [grows.place]) keeps
  builds := grows.builds stands.ready

end Proceeds

theorem Carries.seq {definite middle later : Definite} {between after : Workbench}
    {code other : Code} (first : Carries given definite middle before code between)
    (second : Carries given middle later between other after) :
    Carries given definite later before (.seq code other) after := by
  intro names known same holds supplies
  obtain ⟨closed, carries⟩ := first names known same holds supplies
  constructor
  · refine IR.Code.Closed.seq_iff.mpr ⟨closed, ?_⟩
    intro run runs
    obtain ⟨others, sameMiddle, suppliesMiddle⟩ := carries run runs
    exact (second others _ sameMiddle (holds.mono (Locals.subset_append _ _)) suppliesMiddle).1
  · intro run runs
    cases runs with
    | @seq _ _ former latter runsFormer runsLatter =>
      obtain ⟨others, sameMiddle, suppliesMiddle⟩ := carries former runsFormer
      obtain ⟨last, sameLast, suppliesLast⟩ :=
        (second others _ sameMiddle (holds.mono (Locals.subset_append _ _)) suppliesMiddle).2
          latter runsLatter
      rw [Locals.append_assoc, ← IR.results_append] at suppliesLast
      exact ⟨last, sameLast, suppliesLast⟩

theorem Ranges.seq {between after : Workbench} {code other : Code}
    (first : Ranges given before code between) (second : Ranges given between other after) :
    Ranges given before (.seq code other) after := by
  intro known knows supplies
  obtain ⟨uses, suppliesBetween⟩ := first known knows supplies
  obtain ⟨usesOther, suppliesAfter⟩ :=
    second _ (knows.mono (Locals.subset_append _ _)) suppliesBetween
  refine ⟨uses.append usesOther, fun names => ?_⟩
  have later := suppliesAfter names
  rw [Locals.append_assoc, ← IR.results_append] at later
  exact later

namespace Advances

variable {given : List IR.Value} {exit : String} {definite middle later : Definite}
  {declared others : List String} {leaves : Bool}

/-- Operands are given that are not needed. -/
theorem give {lowering : Lower Unit}
    (advances : Advances strict [] exit definite later declared leaves lowering) :
    Advances strict given exit definite later declared leaves lowering := by
  intro before after stands outcome
  obtain ⟨code, proceeds, isLeaving, carries, ranges⟩ := advances before after stands outcome
  exact ⟨code, proceeds, isLeaving, fun names known same _ => carries names known same nofun,
    fun known _ => ranges known nofun⟩

theorem seq {first second : Lower Unit}
    (starts : Advances strict given exit definite middle declared false first)
    (continues : Advances strict given exit middle later others leaves second) :
    Advances strict given exit definite later (declared ++ others) leaves
      (first >>= fun _ => second) := by
  intro before after stands outcome
  obtain ⟨⟨⟩, between, outcome₁, outcome₂⟩ := bind_eq_ok outcome
  obtain ⟨code, proceeds, goesOn, carries, ranges⟩ := starts before between stands outcome₁
  obtain ⟨other, proceedsOn, isLeaving, carriesOn, rangesOn⟩ :=
    continues between after (proceeds.stands stands goesOn) outcome₂
  exact ⟨.seq code other, proceeds.seq proceedsOn, isLeaving, carries.seq carriesOn,
    ranges.seq rangesOn⟩

variable {address : IR.Value} {value : Option Fragment}

theorem bind {α : Type} {mentioned : List String} {computation : Lower α} {next : α → Lower Unit}
    (values : α → List IR.Value) (evaluates : Evaluates computation)
    (draws : ∀ names known, mentioned ⊆ names → Knows known given →
      Draws names known computation fun more value => Knows more (values value))
    (settled : ∀ names, definite = some names → mentioned ⊆ names)
    (continues : ∀ value, Advances strict (given ++ values value) exit definite later declared
      leaves
      (next value)) :
    Advances strict given exit definite later declared leaves (computation >>= next) := by
  intro before after stands outcome
  obtain ⟨value, between, outcome₁, outcome₂⟩ := bind_eq_ok outcome
  obtain ⟨instructions, grows, guarded, keeps, carries⟩ :=
    evaluates.straight draws stands.ready stands.sound outcome₁
  have proceeds := Proceeds.straight stands grows guarded keeps
  obtain ⟨code, proceedsOn, isLeaving, carriesOn, rangesOn⟩ :=
    continues value between after (proceeds.stands stands rfl) outcome₂
  refine ⟨.seq (.straight instructions) code, proceeds.seq proceedsOn, isLeaving, ?_, ?_⟩
  · intro names known same knows supplies
    obtain ⟨needs, suppliesMiddle, knowsValues⟩ :=
      carries names known (settled names same) knows supplies
    have knowsMore :=
      (knows.mono (Locals.subset_append _ (results instructions))).append knowsValues
    obtain ⟨closedOn, endsOn⟩ := carriesOn names _ same knowsMore suppliesMiddle
    constructor
    · refine IR.Code.Closed.seq_iff.mpr ⟨IR.closed_straight_iff.mpr needs.results, ?_⟩
      rintro run ⟨⟩
      exact closedOn
    · intro run runs
      cases runs with
      | @seq _ _ former latter runsFormer runsLatter =>
        cases runsFormer
        obtain ⟨last, sameLast, suppliesLast⟩ := endsOn latter runsLatter
        rw [Locals.append_assoc, ← IR.results_append] at suppliesLast
        exact ⟨last, sameLast, suppliesLast⟩
  · intro known knows supplies
    obtain ⟨needs, _, knowsValues⟩ :=
      carries mentioned known (List.Subset.refl _) knows (supplies mentioned)
    have suppliesMiddle : ∀ names, Supplies names (known ++ results instructions) between := by
      intro names
      obtain ⟨_, suppliesBoth, _⟩ := carries (mentioned ++ names) known
        (List.subset_append_left _ _) knows (supplies _)
      exact suppliesBoth.subset (List.subset_append_right _ _)
    have knowsMore :=
      (knows.mono (Locals.subset_append _ (results instructions))).append knowsValues
    obtain ⟨usesOn, suppliesAfter⟩ := rangesOn _ knowsMore suppliesMiddle
    refine ⟨needs.uses.append usesOn, fun names => ?_⟩
    have later := suppliesAfter names
    rw [Locals.append_assoc, ← IR.results_append] at later
    exact later

theorem bindName (name : String) (type : Ty)
    (isKnown : ∀ known, Knows known given → Known known address) :
    Advances strict given exit definite (definite.adding name) [name] false
      (Lower.bindName name address type) := by
  intro before after stands outcome
  have same : after = before.binding name ⟨address, type⟩ := by
    cases outcome
    rfl
  subst same
  refine ⟨.straight [], ?_, rfl, ?_, ?_⟩
  · have grows : Grows before.frame.draft [] before.frame.draft := .of_same rfl rfl rfl rfl rfl
    exact {
      builds := grows.builds stands.ready
      sound := stands.sound.binding
      function := rfl
      kept := fun _ _ _ found _ => found
      binding := fun other fresh => by
        rw [Workbench.binding?_binding, if_neg fun isNew => fresh (by simp [isNew.1])]
      activation := before.activation?_binding
      depth := before.depth_binding
      outer := before.outer_binding
      temporaries := Nat.le_refl _
      head := rfl
      guarded := id }
  · intro names known isDefinite knows supplies
    refine ⟨IR.closed_straight_iff.mpr (by simp [IR.external]), ?_⟩
    rintro run ⟨⟩
    refine ⟨name :: names, by rw [isDefinite]; rfl, ?_⟩
    rw [IR.results_nil, Locals.append_nil]
    exact supplies.binding (isKnown known knows)
  · intro known knows supplies
    refine ⟨Needs.nil.uses, fun names => ?_⟩
    rw [Code.instructions, IR.results_nil, Locals.append_nil]
    exact ((supplies names).binding (isKnown known knows)).subset (List.subset_cons_self _ _)

theorem bindGiven (name : String) (type : Ty) (isGiven : address ∈ given) :
    Advances strict given exit definite (definite.adding name) [name] false
      (Lower.bindName name address type) :=
  bindName name type fun _ knows => knows address isGiven

theorem after {α : Type} {computation : Lower α} {next : α → Lower Unit}
    (values : α → List IR.Value) (evaluates : Evaluates computation)
    (draws : ∀ names known, Knows known given →
      Draws names known computation fun more value => Knows more (values value))
    (continues : ∀ value, Advances strict (given ++ values value) exit definite later declared
      leaves
      (next value)) :
    Advances strict given exit definite later declared leaves (computation >>= next) := by
  have nothing : ∀ names, definite = some names → [] ⊆ names := fun names _ => List.nil_subset names
  exact bind values evaluates (fun names known _ => draws names known) nothing continues

/-- What is evaluated first is not used. -/
theorem skip {α : Type} {computation : Lower α} {next : α → Lower Unit}
    {result : List String → Locals → α → Prop} (evaluates : Evaluates computation)
    (draws : ∀ names known, Knows known given → Draws names known computation (result names))
    (continues : ∀ value, Advances strict given exit definite later declared leaves (next value)) :
    Advances strict given exit definite later declared leaves (computation >>= next) := by
  apply after (fun _ => []) evaluates
  · intro names known knows
    exact (draws names known knows).weaken fun _ _ _ => nofun
  · intro value
    rw [List.append_nil]
    exact continues value

theorem emitting {emission : Emit IR.Value} {next : IR.Value → Lower Unit}
    (emits : ∀ known, Knows known given → Emits known emission Known)
    (continues : ∀ value, Advances strict (given ++ [value]) exit definite later declared leaves
      (next value)) :
    Advances strict given exit definite later declared leaves (Lower.emit emission >>= next) := by
  apply after (fun value => [value]) (.emit _)
  · intro names known knows
    exact (Draws.emit (emits known knows)).weaken fun _ _ isKnown => isKnown.knows
  · exact continues

/-- A new aggregate is recorded and bound to a name. -/
theorem bindFresh (name : String) (type : Ty) (isGiven : address ∈ given) :
    Advances strict given exit definite (definite.adding name) [name] false (do
      let _ ← Lower.recordFresh address type
      Lower.bindName name address type) :=
  skip (.recordFresh address type) (fun _ _ knows => .recordFresh type (knows address isGiven))
    fun _ => bindGiven name type isGiven

/-- A value is stored in a new slot, which is bound to a name. -/
theorem bindSlot (name : String) {value : IR.Value} (type : Ty)
    (isKnown : ∀ known, Knows known given → Known known value) :
    Advances strict given exit definite (definite.adding name) [name] false (do
      let slot ← Lower.emit do Emit.alloca (← valueLayout type) none
      Lower.emit (Emit.store value slot)
      Lower.bindName name slot type) := by
  refine emitting (fun _ _ => .bind (.valueLayout type) fun _ layout _ _ =>
    .alloca layout (by simp)) fun slot => ?_
  have stores : ∀ names known, Knows known (given ++ [slot]) →
      Draws names known (Lower.emit (Emit.store value slot)) fun _ _ => True := by
    intro names known knows
    have valueKnown := isKnown known fun other member => knows other (List.mem_append_left _ member)
    exact .emit (.store valueKnown (knows slot (by simp)))
  exact skip (.emit _) stores fun _ => bindGiven name type (by simp)

theorem declaration (line : Nat) (name : String) (written : Source.TypeName) :
    Advances strict [] exit definite (definite.adding name) [name] false
      (Lowering.declaration line name written) := by
  refine skip (.resolve line none written.consults_all)
    (fun _ _ _ => .resolve line none written) fun type => ?_
  split
  · exact emitting (fun _ _ => .buildEntity _) fun _ => bindFresh name _ (by simp)
  · next element =>
      apply after (fun list => [list.1]) (.emit _)
      · intro names known _
        exact (Draws.emit (.buildList element (.constant rfl))).weaken
          fun _ _ isKnown => isKnown.1.knows
      · intro list
        apply bindFresh
        simp
  · apply bindSlot
    intro known _
    apply Known.constant
    unfold zeroOf
    split <;> rfl

theorem afterValue {expression : Source.Expr} {next : Operand → Lower Unit}
    (settled : ∀ names, definite = some names → expression.mentions ⊆ names)
    (continues : ∀ operand, Advances strict (given ++ [operand.value]) exit definite later declared
      leaves (next operand)) : Advances strict given exit definite later declared leaves
      ((lower expression).value >>= next) := by
  apply bind (fun operand => [operand.value]) (evaluates_lower expression).value
  · intro names known mentioned _
    exact ((draws_lower expression mentioned).value known).weaken fun _ _ isKnown => isKnown.knows
  · exact settled
  · exact continues

theorem initialisation (name : String) {value : Source.Expr}
    (settled : ∀ names, definite = some names → value.mentions ⊆ names) :
    Advances strict [] exit definite (definite.adding name) [name] false
      (Lowering.initialisation name (lower value)) := by
  apply afterValue settled
  intro operand
  have isGiven : operand.value ∈ [] ++ [operand.value] := by simp
  split
  · refine skip .scope (fun _ _ _ => .scope) fun innermost => ?_
    split
    · exact bindGiven name _ isGiven
    · exact emitting (fun known knows => .copyOf operand.type (knows _ isGiven)) fun _ =>
        bindFresh name _ (by simp)
  · apply after (fun real => [real.value]) (.widen operand)
    · intro names known knows
      exact (Draws.widen (knows _ isGiven)).weaken fun _ _ isKnown => isKnown.knows
    · intro real
      apply bindSlot
      intro known knows
      exact knows real.value (by simp)

theorem pure : Advances strict given exit definite definite [] false (pure ()) := by
  rintro before after stands ⟨⟩
  have grows : Grows before.frame.draft [] before.frame.draft := .of_same rfl rfl rfl rfl rfl
  refine ⟨.straight [], .straight stands grows .nil (.refl before), rfl, ?_, ?_⟩
  · intro names known same _ supplies
    refine ⟨IR.closed_straight_iff.mpr (by simp [IR.external]), ?_⟩
    rintro run ⟨⟩
    refine ⟨names, same, ?_⟩
    rwa [IR.results_nil, Locals.append_nil]
  · intro known _ supplies
    refine ⟨Needs.nil.uses, fun names => ?_⟩
    rw [Code.instructions, IR.results_nil, Locals.append_nil]
    exact supplies names

theorem fail (line : Nat) (error : LowerError) :
    Advances strict given exit definite later declared leaves (Lower.fail line error) := by
  rintro before after _ ⟨⟩

theorem evaluation {value : Source.Expr}
    (settled : ∀ names, definite = some names → value.mentions ⊆ names) :
    Advances strict [] exit definite definite [] false (do let _ ← (lower value).load) := by
  apply bind (fun _ => []) (evaluates_lower value).load
  · intro names known mentioned _
    exact ((draws_lower value mentioned).load known).weaken fun _ _ _ => nofun
  · exact settled
  · intro _
    exact pure

theorem leave : Advances strict given exitLabel definite none [] true
    (Lower.emit (Emit.terminate (.jump exitLabel))) := by
  intro before after stands outcome
  have goes : Goes strict [] before after :=
    .emit stands.sound stands.ready.blocks_ne_nil (.terminate _) outcome
  have draft : after.frame.draft = before.frame.draft.ended (.jump exitLabel) := by
    cases outcome
    rfl
  have builds : Builds exitLabel before.frame.draft .leave after.frame.draft := by
    rw [draft]
    exact stands.ready.leave
  refine ⟨.leave, ⟨goes, builds⟩, rfl, ?_, ?_⟩
  · intro names known _ _ _
    constructor
    · rintro run name ⟨⟩
    · rintro run ⟨⟩
  · intro known _ supplies
    refine ⟨Needs.nil.uses, fun names => ?_⟩
    exact (supplies names).goes goes builds.since.labelled.valid (Locals.subset_append _ _)

/-- The slot of the result of the function in which a bench stands. -/
def resultSlots (bench : Workbench) : List IR.Value :=
  (bench.activation?.bind Activation.slot).toList

/-- The bench is read, and with it the slot of the result is given. -/
theorem getSlots {next : Workbench → Lower Unit}
    (advances : ∀ bench, Advances strict (resultSlots bench) exit definite later declared leaves
      (next bench)) : Advances strict [] exit definite later declared leaves (get >>= next) := by
  intro before after stands outcome
  obtain ⟨_, _, ⟨⟩, outcome⟩ := bind_eq_ok outcome
  obtain ⟨code, proceeds, isLeaving, carries, ranges⟩ := advances before before after stands outcome
  have knows : ∀ names known, Supplies names known before → Knows known (resultSlots before) := by
    intro names known supplies slot member
    obtain ⟨activation, active, isSlot⟩ := Option.bind_eq_some_iff.mp (Option.mem_toList.mp member)
    exact supplies.slot activation active slot isSlot
  exact ⟨code, proceeds, isLeaving,
    fun names known same _ supplies => carries names known same (knows names known supplies)
      supplies,
    fun known _ supplies => ranges known (knows [] known (supplies [])) supplies⟩

theorem resultInside (line : Nat) {value : Option Source.Expr}
    (settled : ∀ expression ∈ value, ∀ names, definite = some names → expression.mentions ⊆ names) :
    Advances strict [] exitLabel definite none [] true
      (Lowering.resultStatement line (value.map lower)) := by
  apply getSlots
  intro bench
  split
  · exact fail _ _
  · next activation active =>
      split
      · exact leave
      · next fragment type slot isFragment _ isSlot =>
          obtain ⟨expression, isValue, rfl⟩ := Option.map_eq_some_iff.mp isFragment
          have holdsSlot : slot ∈ resultSlots bench := by
            have isActive : bench.activation? = some activation := active
            simp [resultSlots, isActive, isSlot]
          apply afterValue (settled expression isValue)
          intro operand
          apply Advances.after (fun found => found.toList.map Operand.value)
            (.convert? operand type)
          · intro names known knows
            have isKnown : Known known operand.value := knows _ (by simp)
            apply (Draws.convert? type isKnown).weaken
            intro more found foundKnown value member
            obtain ⟨converted, isFound, rfl⟩ := List.mem_map.mp member
            exact foundKnown converted (Option.mem_toList.mp isFound)
          intro found
          cases found with
          | none => exact fail _ _
          | some converted =>
            exact skip (.emit _) (fun _ _ knows => .emit (.store
              (knows converted.value (by simp)) (knows slot (by simp [holdsSlot])))) fun _ => leave
      · exact fail _ _

/-- A result is given only in functions, whose exit has its own label. -/
theorem exit_of_result {line : Nat} {before after : Workbench} (stands : Stands strict exit before)
    (outcome : Lowering.resultStatement line value before = .ok () after) : exit = exitLabel := by
  cases active : before.activation? with
  | none =>
    have outside : before.frame.scopes.findSome? Scope.activation = none := active
    obtain ⟨bench, between, got, failed⟩ := bind_eq_ok outcome
    cases got
    rw [outside] at failed
    cases failed
  | some activation =>
    apply stands.leaving
    rw [active]
    rfl

theorem resultStatement (line : Nat) {value : Option Source.Expr}
    (settled : ∀ expression ∈ value, ∀ names, definite = some names → expression.mentions ⊆ names) :
    Advances strict [] exit definite none [] true
      (Lowering.resultStatement line (value.map lower)) := by
  intro before after stands outcome
  obtain rfl := exit_of_result stands outcome
  exact resultInside line settled before after stands outcome

end Advances

end Kronk.Lowering
