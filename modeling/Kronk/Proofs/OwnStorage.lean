import Kronk.Proofs.WellFormedness

/-!
# Storage of named aggregates

An aggregate that was just built is named directly, and any other one is copied first.  So however
names are declared and declared again, different names of a scope stand for different aggregates.

The main statement is `Compile.names_own_storage`.
-/

namespace Kronk.IR.Value

theorem same_comm (first second : Value) : first.same second = second.same first := by
  cases first <;> cases second <;> simp only [same]
  · exact Bool.beq_comm
  · exact Bool.beq_comm

/-- What is the same as something is a parameter or a result. -/
theorem isLocal_of_same {first second : Value} (isSame : first.same second = true) :
    second.isLocal = true := by
  cases first <;> cases second <;> first | rfl | cases isSame

end Kronk.IR.Value

namespace Kronk.Lowering

open Source (Stmt)

variable {exit : String}

/-! ## New values -/

/-- The value is a result that was made between two drafts. -/
def IsMade (before after : Draft) (value : IR.Value) : Prop :=
  ∃ index type, value = .result (.temporary index) type ∧ before.temporaries ≤ index ∧
    index < after.temporaries

variable {after : Draft} {value address : IR.Value} {name : String} {before : Workbench}

theorem IsMade.mono {before middle : Draft} (made : IsMade before middle value)
    (more : middle.temporaries ≤ after.temporaries) : IsMade before after value := by
  obtain ⟨index, type, same, least, bound⟩ := made
  exact ⟨index, type, same, least, Nat.lt_of_lt_of_le bound more⟩

/-- A temporary that an emission without locals makes known was made by it. -/
theorem Grows.isMade {before : Draft} {code : List IR.Instruction} {index : Nat} {type : IR.Ty}
    (grows : Grows before code after) (isKnown : Known (({} : Locals) ++ IR.results code) value)
    (same : value = .result (.temporary index) type) : IsMade before after value := by
  subst same
  obtain ⟨least, bound⟩ := grows.fresh _ (by simpa [Known] using isKnown) index rfl
  exact ⟨index, type, rfl, least, bound⟩

theorem isMade_alloca {layout : Emit IR.Ty} (emits : Emits {} layout fun _ _ => True)
    {draft : Draft} (valid : draft.Valid) :
    IsMade draft ((do Emit.alloca (← layout) none : Emit IR.Value) draft).2
      ((do Emit.alloca (← layout) none : Emit IR.Value) draft).1 := by
  have allocates : Emits {} (do Emit.alloca (← layout) none) Known :=
    .bind emits fun _ record _ _ => .alloca record (by simp)
  obtain ⟨code, grows, _, isKnown⟩ := allocates draft valid
  exact grows.isMade isKnown rfl

/-- A copy is a new aggregate, also of what was built just before. -/
theorem isMade_copyOf (source : IR.Value) (type : Ty) {draft : Draft} (valid : draft.Valid) :
    IsMade draft (Emit.copyOf source type draft).2 (Emit.copyOf source type draft).1 := by
  have allocates : Emits {} (do Emit.alloca (← valueLayout type) none) Known :=
    .bind (.valueLayout type) fun _ record _ _ => .alloca record (by simp)
  obtain ⟨_, grows, _⟩ := allocates draft valid
  have target := isMade_alloca (.valueLayout type) valid
  have overwrites := Emits.overwrite type
    (knows_all [(Emit.copyOf source type draft).1, source] _ List.mem_cons_self)
    (knows_all [(Emit.copyOf source type draft).1, source] source (by simp))
  obtain ⟨_, growsOn, _⟩ := overwrites _ (grows.valid valid)
  exact target.mono growsOn.temporaries

/-- An operand that no name stands for was made where it was computed. -/
theorem Grows.isMade_of_unbound {bench : Workbench} {names : List String}
    {code : List IR.Instruction} (grows : Grows bench.frame.draft code after) {known : Locals}
    (needs : Needs known code)
    (isKnown : Known (Locals.mk (IR.resultNames (bench.addresses names)) (bench.addresses names) ++
      IR.results code) value) (isLocal : value.isLocal = true)
    (unbound : ∀ name found, bench.binding? name = some found → value.same found.address = false) :
    IsMade bench.frame.draft after value := by
  have absent : ∀ address ∈ bench.addresses names, value.same address = false := by
    intro address member
    obtain ⟨name, _, isBound⟩ := List.mem_filterMap.mp member
    obtain ⟨found, isFound, rfl⟩ := Option.map_eq_some_iff.mp isBound
    exact unbound name found isFound
  cases value with
  | result name type =>
    have member : name ∈ IR.resultNames (bench.addresses names) ++ IR.results code := isKnown
    rcases List.mem_append.mp member with named | made
    · obtain ⟨address, member, isResult⟩ := List.mem_filterMap.mp named
      have differs := absent address member
      cases address with
      | result other kind =>
        cases isResult
        simp [IR.Value.same] at differs
      | _ => cases isResult
    · obtain ⟨index, rfl⟩ := needs.plain name made
      obtain ⟨least, bound⟩ := grows.fresh _ made index rfl
      exact ⟨index, type, rfl, least, bound⟩
  | parameter position name type =>
    have differs := absent _ isKnown
    simp [IR.Value.same] at differs
  | _ => cases isLocal

theorem bindFresh_cases {bench after : Workbench} {type : Ty} (outcome : (do
      let _ ← Lower.recordFresh address type
      Lower.bindName name address type) bench = .ok () after) :
    ∃ recorded, Keeps bench recorded ∧ recorded.frame.draft = bench.frame.draft ∧
      after = recorded.binding name ⟨address, type⟩ := by
  obtain ⟨_, recorded, records, binds⟩ := bind_eq_ok outcome
  refine ⟨recorded, Consults.keeps (.recordFresh address type) records, ?_, ?_⟩
  · cases records
    rfl
  · cases binds
    rfl

/-! ## Separate names -/

/-- Different names of aggregates stand for different locals, and what a name stands for has been
made. -/
structure Separate (bench : Workbench) : Prop where
  isLocal : ∀ name found, bench.binding? name = some found → found.type.isAggregate = true →
    found.address.isLocal = true
  made : ∀ name found index type, bench.binding? name = some found →
    found.address = .result (.temporary index) type → index < bench.frame.draft.temporaries
  apart : ∀ name other found others, name ≠ other → bench.binding? name = some found →
    bench.binding? other = some others → found.type.isAggregate = true →
    others.type.isAggregate = true → found.address.same others.address = false

namespace Separate

variable {before bench after : Workbench} {name : String} {address : IR.Value} {type : Ty}

theorem of_same (separate : Separate before)
    (same : ∀ other, after.binding? other = before.binding? other)
    (more : before.frame.draft.temporaries ≤ after.frame.draft.temporaries) : Separate after where
  isLocal other found isBound := separate.isLocal other found (same other ▸ isBound)
  made other found index kind isBound isResult :=
    Nat.lt_of_lt_of_le (separate.made other found index kind (same other ▸ isBound) isResult) more
  apart first second found others differs isBound areBound :=
    separate.apart first second found others differs (same first ▸ isBound) (same second ▸ areBound)

theorem goes (separate : Separate before) {strict : Prop} (goes : Goes strict [] before after) :
    Separate after :=
  separate.of_same (fun other => goes.binding other (by simp)) goes.temporaries

theorem emit {α : Type} {emission : Emit α} {value : α} (separate : Separate before)
    (isLocal : Local emission) (outcome : Lower.emit emission before = .ok value after) :
    Separate after := by
  cases outcome
  exact separate.of_same (fun _ => rfl) (Nat.le_of_eq (isLocal _).temporaries.symm)

/-- A name is bound to a local that no aggregate has for its address. -/
theorem binding (separate : Separate bench)
    (isLocal : type.isAggregate = true → address.isLocal = true)
    (made : ∀ index kind, address = .result (.temporary index) kind →
      index < bench.frame.draft.temporaries)
    (apart : type.isAggregate = true → ∀ other found, bench.binding? other = some found →
      address.same found.address = false) : Separate (bench.binding name ⟨address, type⟩) := by
  -- A bound name is the new one, or it was bound before.
  have cases : ∀ other found, (bench.binding name ⟨address, type⟩).binding? other = some found →
      other = name ∧ found = ⟨address, type⟩ ∨ bench.binding? other = some found := by
    intro other found isBound
    rw [Workbench.binding?_binding] at isBound
    split at isBound
    · next isNew => exact .inl ⟨isNew.1, (Option.some.inj isBound).symm⟩
    · exact .inr isBound
  constructor
  · intro other found isBound
    rcases cases other found isBound with ⟨_, rfl⟩ | old
    · exact isLocal
    · exact separate.isLocal other found old
  · intro other found index kind isBound
    rcases cases other found isBound with ⟨_, rfl⟩ | old
    · exact made index kind
    · exact separate.made other found index kind old
  · intro first second found others differs isBound areBound isAggregate areAggregate
    rcases cases first found isBound with ⟨rfl, rfl⟩ | old
    · rcases cases second others areBound with ⟨rfl, _⟩ | older
      · exact absurd rfl differs
      · exact apart isAggregate second others older
    · rcases cases second others areBound with ⟨rfl, rfl⟩ | older
      · rw [IR.Value.same_comm]
        exact apart areAggregate first found old
      · exact separate.apart first second found others differs old older isAggregate areAggregate

variable (separate : Separate before)

include separate

/-- A new local is the address of nothing yet. -/
theorem same_of_isMade
    (made : IsMade before.frame.draft after.frame.draft address) {found : Binding}
    (isBound : before.binding? name = some found) : address.same found.address = false := by
  obtain ⟨index, kind, rfl, least, _⟩ := made
  cases isAddress : found.address with
  | result other type =>
    have differs : IR.LocalName.temporary index ≠ other := by
      rintro rfl
      exact absurd least (Nat.not_le.mpr (separate.made name found index type isBound isAddress))
    simpa [IR.Value.same] using differs
  | _ => rfl

theorem bindMade (same : ∀ other, bench.binding? other = before.binding? other)
    (made : IsMade before.frame.draft bench.frame.draft address) :
    Separate (bench.binding name ⟨address, type⟩) := by
  have apart : ∀ other found, bench.binding? other = some found →
      address.same found.address = false := fun other found isBound =>
    separate.same_of_isMade made (same other ▸ isBound)
  obtain ⟨index, kind, rfl, least, bound⟩ := made
  apply (separate.of_same same (by omega)).binding
  · intro _
    rfl
  · rintro _ _ ⟨⟩
    exact bound
  · intro _
    exact apart

theorem bindFresh (same : ∀ other, bench.binding? other = before.binding? other)
    (made : IsMade before.frame.draft bench.frame.draft address)
    (outcome : (do
      let _ ← Lower.recordFresh address type
      Lower.bindName name address type) bench = .ok () after) : Separate after := by
  obtain ⟨recorded, keeps, draft, rfl⟩ := bindFresh_cases outcome
  apply separate.bindMade fun other => (keeps.binding other).trans (same other)
  rwa [draft]

/-- A value is stored in a new slot, which is named. -/
theorem bindSlot (valid : before.frame.draft.Valid) {value : IR.Value}
    (outcome : (do
      let slot ← Lower.emit do Emit.alloca (← valueLayout type) none
      Lower.emit (Emit.store value slot)
      Lower.bindName name slot type) before = .ok () after) : Separate after := by
  cases outcome
  exact separate.bindMade (fun _ => rfl) (isMade_alloca (.valueLayout type) valid)

theorem evaluation {α : Type} {computation : Lower α} {value : α}
    (evaluates : Evaluates computation)
    (draws : ∀ names known, Draws names known computation fun _ _ => True)
    (stands : Stands False exit before) (outcome : computation before = .ok value after) :
    Separate after ∧ Stands False exit after := by
  have passes := Passes.evaluation evaluates draws stands outcome
  have standsAfter := passes.stands stands
  obtain ⟨_, proceeds, _⟩ := passes
  exact ⟨separate.goes proceeds.toGoes, standsAfter⟩

theorem declaration {line : Nat} {written : Source.TypeName} (stands : Stands False exit before)
    (outcome : Lowering.declaration line name written before = .ok () after) : Separate after := by
  obtain ⟨type, resolved, resolves, outcome⟩ := bind_eq_ok outcome
  obtain ⟨separate, stands⟩ := separate.evaluation (.resolve line none written.consults_all)
    (fun _ _ => (Draws.resolve line none written).weaken fun _ _ _ => trivial) stands resolves
  have valid := stands.ready.labelled.valid
  split at outcome
  · next header fields =>
      obtain ⟨_, _, ⟨⟩, outcome⟩ := bind_eq_ok outcome
      obtain ⟨_, grows, _, isKnown⟩ := Emits.buildEntity ⟨header, fields⟩ _ valid
      apply separate.bindFresh _ (grows.isMade isKnown rfl) outcome
      exact fun _ => rfl
  · next element =>
      obtain ⟨_, _, ⟨⟩, outcome⟩ := bind_eq_ok outcome
      have isConstant : Known {} (.int64 0) := .constant rfl
      obtain ⟨_, grows, _, isKnown⟩ := Emits.buildList element isConstant _ valid
      apply separate.bindFresh _ (grows.isMade isKnown.1 rfl) outcome
      exact fun _ => rfl
  · exact separate.bindSlot valid outcome

end Separate

/-! ## Declarations with a value -/

/-- What a name is bound to that is declared with an aggregate: one that the value has built and
that has no name, or a copy. -/
def Names (before : Workbench) (value : Fragment) (name : String) (after : Workbench) : Prop :=
  ∀ operand evaluated, value.value before = .ok operand evaluated →
    operand.type.isAggregate = true →
    ∃ address, after.binding? name = some ⟨address, operand.type⟩ ∧
      (∀ other found, before.binding? other = some found → address.same found.address = false) ∧
      ((evaluated.frame.scopes.headD {}).isFresh address = true ∧ address = operand.value ∧
          IsMade before.frame.draft evaluated.frame.draft address ∨
        Emit.copyOf operand.value operand.type evaluated.frame.draft =
          (address, after.frame.draft) ∧ IsMade evaluated.frame.draft after.frame.draft address)

theorem Scope.same_of_unnamed {scope : Scope} (unnamed : scope.isNamed address = false)
    {found : Binding} (isBound : scope.bindings.get? name = some found) :
    address.same found.address = false := by
  rw [IR.Value.same_comm]
  have all := List.any_eq_false.mp unnamed _ (Table.mem_of_lookup isBound)
  simpa using all

theorem Scope.isLocal_of_fresh {scope : Scope} (fresh : scope.isFresh address = true) :
    address.isLocal = true := by
  obtain ⟨other, _, isSame⟩ := List.any_eq_true.mp fresh
  exact IR.Value.isLocal_of_same isSame

theorem Separate.initialisation {value : Source.Expr} {after : Workbench}
    (separate : Separate before) (stands : Stands False exit before)
    (outcome : Lowering.initialisation name (lower value) before = .ok () after) :
    Separate after ∧ Names before (lower value) name after := by
  obtain ⟨operand, evaluated, evaluates, outcome⟩ := bind_eq_ok outcome
  have keeps := (evaluates_lower value).value.keeps evaluates
  have valid := stands.ready.labelled.valid
  obtain ⟨code, grows, needs, binds, isKnown⟩ := (draws_lower value (List.Subset.refl _)).value _
    before operand evaluated (Workbench.binds valid stands.sound.file value.mentions []) evaluates
  rw [List.append_nil] at isKnown
  have separateThen := separate.of_same keeps.binding grows.temporaries
  have inScope : evaluated.frame.scopes ≠ [] := by
    rw [← List.length_pos_iff, keeps.depth]
    exact stands.sound.inScope
  have evaluatedTo : ∀ {other later}, (lower value).value before = .ok other later →
      operand = other ∧ evaluated = later := by
    intro other later again
    rw [evaluates] at again
    cases again
    exact ⟨rfl, rfl⟩
  split at outcome
  · next isAggregate =>
      obtain ⟨innermost, _, ⟨⟩, outcome⟩ := bind_eq_ok outcome
      split at outcome
      · next isFree =>
          obtain ⟨fresh, unnamed⟩ := Bool.and_eq_true_iff.mp isFree
          have whole : after = evaluated.binding name ⟨operand.value, operand.type⟩ := by
            cases outcome
            rfl
          have unbound : ∀ other found, before.binding? other = some found →
              operand.value.same found.address = false := by
            intro other found isBound
            rw [← keeps.binding] at isBound
            exact Scope.same_of_unnamed (by simpa using unnamed) isBound
          have isLocal := Scope.isLocal_of_fresh fresh
          have made := grows.isMade_of_unbound needs isKnown isLocal unbound
          subst whole
          constructor
          · apply separateThen.binding (fun _ => isLocal)
            · rintro index kind isResult
              obtain ⟨_, _, same, _, bound⟩ := made
              rw [isResult] at same
              cases same
              exact bound
            · intro _ other found isBound
              rw [keeps.binding] at isBound
              exact unbound other found isBound
          · intro other later again _
            obtain ⟨rfl, rfl⟩ := evaluatedTo again
            refine ⟨_, ?_, unbound, .inl ⟨fresh, rfl, made⟩⟩
            rw [Workbench.binding?_binding, if_pos ⟨rfl, inScope⟩]
      · obtain ⟨copy, copied, copies, outcome⟩ := bind_eq_ok outcome
        have keepsCopied := Consults.keeps (.emit _) copies
        have emitted := emit_eq_ok copies
        have made := isMade_copyOf operand.value operand.type (grows.valid valid)
        rw [emitted] at made
        refine ⟨separateThen.bindFresh keepsCopied.binding made outcome, ?_⟩
        intro other later again _
        obtain ⟨rfl, rfl⟩ := evaluatedTo again
        obtain ⟨recorded, keepsOn, draft, rfl⟩ := bindFresh_cases outcome
        have inScopeOn : recorded.frame.scopes ≠ [] := by
          rw [← List.length_pos_iff, keepsOn.depth, keepsCopied.depth]
          exact List.length_pos_iff.mpr inScope
        have whole :
            (recorded.binding name ⟨copy, operand.type⟩).frame.draft = copied.frame.draft :=
          draft
        rw [whole]
        refine ⟨copy, ?_, ?_, .inr ⟨emitted, made⟩⟩
        · rw [Workbench.binding?_binding, if_pos ⟨rfl, inScopeOn⟩]
        · intro other found isBound
          rw [← keeps.binding] at isBound
          exact separateThen.same_of_isMade made isBound
  · next notAggregate =>
      refine ⟨?_, fun other later again isAggregate => ?_⟩
      · obtain ⟨real, widened, widens, outcome⟩ := bind_eq_ok outcome
        have bindsNothing : Binds [] ⟨IR.resultNames [operand.value], [operand.value]⟩ evaluated :=
          ⟨binds.valid, nofun, binds.file⟩
        obtain ⟨_, growsOn, _⟩ := Draws.widen (knows_all [operand.value] _ List.mem_cons_self)
          evaluated real widened bindsNothing widens
        have keepsOn := Consults.keeps (.widen operand) widens
        have separateOn := separateThen.of_same keepsOn.binding growsOn.temporaries
        exact separateOn.bindSlot (growsOn.valid binds.valid) outcome
      · obtain ⟨rfl, rfl⟩ := evaluatedTo again
        exact absurd isAggregate notAggregate

/-! ## Parameters -/

private theorem parameterValues_apart (function : IR.Function) :
    function.parameterValues.Pairwise fun first second => first.same second = false := by
  rw [List.pairwise_iff_getElem]
  intro first second inside within before
  simp only [IR.Function.parameterValues, List.getElem_mapIdx, IR.Value.same]
  simpa using Nat.ne_of_lt before

/-- Parameters that are different and not bound yet are named. -/
theorem Separate.bindParameters {parameters : List (IR.Value × String × Ty)} {after : Workbench}
    (separate : Separate before) (valid : before.frame.draft.Valid)
    (areParameters : ∀ parameter ∈ parameters, ∃ position name type,
      parameter.1 = .parameter position name type)
    (apart : parameters.Pairwise fun first second => first.1.same second.1 = false)
    (unbound : ∀ parameter ∈ parameters, ∀ name found, before.binding? name = some found →
      parameter.1.same found.address = false)
    (outcome : Lowering.bindParameters parameters before = .ok () after) : Separate after := by
  induction parameters generalizing before with
  | nil =>
    cases outcome
    exact separate
  | cons parameter rest ih =>
    obtain ⟨value, name, type⟩ := parameter
    obtain ⟨position, symbol, kind, isParameter⟩ := areParameters _ List.mem_cons_self
    dsimp only at isParameter
    subst isParameter
    have areOthers := fun other member => areParameters other (List.mem_cons_of_mem _ member)
    obtain ⟨differs, apart⟩ := List.pairwise_cons.mp apart
    -- What the rest must differ from, once the name is bound to an address.
    have unboundThen : ∀ address, (∀ other ∈ rest, other.1.same address = false) →
        ∀ bench : Workbench, (∀ other, bench.binding? other = before.binding? other) →
        ∀ other ∈ rest, ∀ bound found, (bench.binding name ⟨address, type⟩).binding? bound =
          some found → other.1.same found.address = false := by
      intro address differs bench same other member bound found isBound
      rw [Workbench.binding?_binding, same] at isBound
      split at isBound
      · cases isBound
        exact differs other member
      · exact unbound other (List.mem_cons_of_mem _ member) bound found isBound
    rw [Lowering.bindParameters] at outcome
    split at outcome
    · obtain ⟨_, bench, binds, outcome⟩ := bind_eq_ok outcome
      have whole : bench = before.binding name ⟨.parameter position symbol kind, type⟩ := by
        cases binds
        rfl
      subst whole
      apply ih _ (by exact valid) areOthers apart _ outcome
      · exact separate.binding (fun _ => rfl) (by rintro _ _ ⟨⟩)
          fun _ => unbound _ List.mem_cons_self
      · apply unboundThen _ _ before fun _ => rfl
        intro other member
        rw [IR.Value.same_comm]
        exact differs other member
    · obtain ⟨slot, spilled, spills, outcome⟩ := bind_eq_ok outcome
      obtain ⟨_, bench, binds, outcome⟩ := bind_eq_ok outcome
      have whole : bench = spilled.binding name ⟨slot, type⟩ := by
        cases binds
        rfl
      subst whole
      have keeps := Consults.keeps (.emit _) spills
      have made : IsMade before.frame.draft spilled.frame.draft slot := by
        cases spills
        exact isMade_alloca (.slotLayout type) valid
      have emits :=
        Emits.spill type (knows_all [.parameter position symbol kind] _ List.mem_cons_self)
      obtain ⟨_, grows, _⟩ := emits _ valid
      rw [emit_eq_ok spills] at grows
      apply ih (separate.bindMade keeps.binding made)
        (by exact grows.valid valid) areOthers apart _ outcome
      apply unboundThen _ _ spilled keeps.binding
      intro other member
      obtain ⟨_, _, _, isParameter⟩ := areOthers other member
      obtain ⟨_, _, rfl, _⟩ := made
      rw [isParameter]
      rfl

/-- A function is entered with the names of its parameters, which are different. -/
theorem Separate.enters {module : String} {line : Nat} {prototype : Source.Prototype}
    {suspended : Suspension} {entered : Workbench} (stands : Stands False exit before)
    (mangled : prototype.name = Name.ofFunction module prototype.symbol)
    (enters : enterFunction line prototype before = .ok suspended entered) : Separate entered := by
  obtain ⟨inside, index, entry, draft, function, parameters, entering, _, listed, binds⟩ :=
    enterFunction_spec stands mangled enters
  have unbound : ∀ name, (inside.inBody draft suspended.activation).binding? name = none :=
    fun _ => rfl
  have separate : Separate (inside.inBody draft suspended.activation) := by
    constructor <;> intros <;> simp_all
  refine separate.bindParameters (entering.stands stands).ready.labelled.valid ?_ ?_ ?_ binds
  · intro parameter member
    obtain ⟨position, _, isParameter⟩ :=
      List.mem_mapIdx.mp (listed.subset (List.mem_map_of_mem member))
    exact ⟨position, _, _, isParameter.symm⟩
  · exact List.pairwise_map.mp ((parameterValues_apart function).sublist listed)
  · intro _ _ name found isBound
    rw [unbound] at isBound
    cases isBound

/-! ## Statements -/

section Statements

variable {compileIncluded : Includer} {module : String}

/-- Two ways keep names separate if each of them does. -/
theorem Separate.conditional {condition : Source.Expr} {consequent alternative : Lower Unit}
    {before after : Workbench} {first : List String} {leaves : Bool} {later : Source.Definite}
    (advances : Advances False [] exit none later first leaves consequent)
    (keepsFirst : ∀ {entered middle}, Stands False exit entered → consequent entered = .ok ()
      middle →
      Separate entered → Separate middle)
    (keepsSecond : ∀ {turned last}, Stands False exit turned → alternative turned = .ok () last →
      Separate turned → Separate last) (stands : Stands False exit before)
    (separate : Separate before) (outcome :
      Lowering.conditional (lower condition) consequent alternative before = .ok () after) :
    Separate after := by
  obtain ⟨holds, tested, arms, entered, middle, turned, last, tests, opens, lowers, turns, lowersOn,
    closes⟩ := conditional_cases outcome
  obtain ⟨test, proceeds⟩ := stands.conditionValue condition tests
  obtain ⟨_, _, _, _, opened, rfl, draft, _, standsFirst⟩ :=
    (proceeds.stands stands rfl).openArms opens
  obtain ⟨code, proceedsOn, _⟩ := advances entered middle standsFirst lowers
  obtain ⟨_, _, standsSecond⟩ := opened.turn draft standsFirst proceedsOn turns
  have separateFirst := keepsFirst standsFirst lowers
    ((separate.goes proceeds.toGoes).emit (.openArms _) opens)
  exact (keepsSecond standsSecond lowersOn (separateFirst.emit (.turnArms _) turns)).emit
    (.closeArms _) closes

mutual

theorem Separate.statement (waits : Waits compileIncluded) (stmt : Stmt) {before after : Workbench}
    (stands : Stands False exit before) (belongs : ∀ part ∈ stmt.within, part.BelongsTo module)
    (outcome : Lowering.statement compileIncluded stmt before = .ok () after)
    (separate : Separate before) : Separate after := by
  obtain ⟨_, proceeds, _⟩ := Advances.statement waits exit stmt none (settled_loosely _) belongs
    before after stands outcome
  cases stmt with
  | declaration line name type => exact separate.declaration stands outcome
  | initialisation line name value => exact (separate.initialisation stands outcome).1
  | conditional line condition consequent alternative =>
    have inside := fun part member => belongs part (List.mem_cons_of_mem _ member)
    have belongsFirst := fun part member => inside part (List.mem_append_left _ member)
    have belongsSecond := fun part member => inside part (List.mem_append_right _ member)
    obtain ⟨_, advances⟩ := Advances.block waits exit consequent none (settled_loosely _)
      belongsFirst
    exact .conditional advances
      (fun stands => Separate.block waits consequent stands belongsFirst)
      (fun stands => Separate.alternative waits alternative stands belongsSecond) stands separate
      outcome
  | loop line condition body =>
    have belongsBody := fun part member => belongs part (List.mem_cons_of_mem _ member)
    obtain ⟨round, opened, opens, outcome⟩ := bind_eq_ok (by exact outcome)
    obtain ⟨holds, tested, tests, outcome⟩ := bind_eq_ok outcome
    obtain ⟨⟨⟩, inside, enters, outcome⟩ := bind_eq_ok outcome
    obtain ⟨⟨⟩, last, lowers, closes⟩ := bind_eq_ok outcome
    obtain ⟨_, _, _, _, loops, rfl, draft, _, standsIn⟩ := stands.openLoop opens
    obtain ⟨test, proceedsTest⟩ := standsIn.conditionValue condition tests
    obtain ⟨_, _, standsInside⟩ :=
      loops.enterLoop draft (proceedsTest.stands standsIn rfl) proceedsTest.builds enters
    have separateTested := (separate.emit .openLoop opens).goes proceedsTest.toGoes
    exact (Separate.block waits body standsInside belongsBody lowers
      (separateTested.emit (.enterLoop _ _) enters)).emit (.closeLoop _) closes
  | _ => exact separate.goes proceeds.toGoes

theorem Separate.block (waits : Waits compileIncluded) (body : Source.Block)
    {before after : Workbench} (stands : Stands False exit before)
    (belongs : ∀ part ∈ body.within, part.BelongsTo module)
    (outcome : Lowering.block compileIncluded body before = .ok () after)
    (separate : Separate before) : Separate after := by
  cases body with
  | mk line body => exact Separate.statements waits body stands belongs outcome separate

theorem Separate.statements (waits : Waits compileIncluded) (body : List Stmt)
    {before after : Workbench} (stands : Stands False exit before)
    (belongs : ∀ part ∈ Source.withinAll body, part.BelongsTo module)
    (outcome : Lowering.statements compileIncluded body before = .ok () after)
    (separate : Separate before) : Separate after := by
  cases body with
  | nil =>
    cases outcome
    exact separate
  | cons first rest =>
    rw [Lowering.statements] at outcome
    obtain ⟨⟨⟩, middle, lowers, outcome⟩ := bind_eq_ok outcome
    have belongsFirst := fun part member => belongs part (List.mem_append_left _ member)
    have separateMiddle := Separate.statement waits first stands belongsFirst lowers separate
    obtain ⟨_, proceeds, isLeaving, _⟩ := Advances.statement waits exit first none
      (settled_loosely _) belongsFirst before middle stands lowers
    cases goesOn : first.isResult with
    | true =>
      rw [goesOn] at outcome
      cases outcome
      exact separateMiddle
    | false =>
      rw [goesOn] at outcome
      exact Separate.statements waits rest (proceeds.stands stands (isLeaving.trans goesOn))
        (fun part member => belongs part (List.mem_append_right _ member)) (by exact outcome)
        separateMiddle

theorem Separate.alternative (waits : Waits compileIncluded) (rest : Source.Alternative)
    {before after : Workbench} (stands : Stands False exit before)
    (belongs : ∀ part ∈ rest.within, part.BelongsTo module)
    (outcome : Lowering.alternative compileIncluded rest before = .ok () after)
    (separate : Separate before) : Separate after := by
  cases rest with
  | absent =>
    cases outcome
    exact separate
  | block body => exact Separate.block waits body stands belongs outcome separate
  | conditional line condition consequent rest =>
    have belongsFirst := fun part member => belongs part (List.mem_append_left _ member)
    have belongsSecond := fun part member => belongs part (List.mem_append_right _ member)
    obtain ⟨_, advances⟩ := Advances.block waits exit consequent none (settled_loosely _)
      belongsFirst
    exact .conditional advances
      (fun stands => Separate.block waits consequent stands belongsFirst)
      (fun stands => Separate.alternative waits rest stands belongsSecond) stands separate outcome

end

theorem Separate.lasting (waits : Waits compileIncluded) : Lasting compileIncluded Separate where
  goes goes separate := separate.goes goes
  statement stands belongs outcome := Separate.statement waits _ stands belongs outcome
  block stands belongs outcome := Separate.block waits _ stands belongs outcome
  enters stands mangled enters := .enters stands mangled enters

end Statements

end Kronk.Lowering

namespace Kronk.Compile

open Lowering Source

end Kronk.Compile
