import Kronk.Proofs.Machine
import Kronk.Proofs.Statements

/-!
# Straight code of scalar programs

Names stand for slots, and the slots hold the values of the variables (`Matches`).  `Computes` says
that straight code does what an evaluation does: it makes the same calls of routines and the same
assignments, has the same value, and stops where the evaluation does.
-/

namespace Kronk.IR

/-- The digits of a label show its position. -/
theorem textLabel_injective {first second : Nat}
    (same : Module.textLabel first = Module.textLabel second) : first = second := by
  have labels : ∀ position, (Module.textLabel position).toList =
      ".str".toList ++ (if position = 0 then [] else '.' :: Nat.toDigits 10 position) := by
    intro position
    unfold Module.textLabel
    split
    · rfl
    · rw [String.toList_append]
      exact congrArg (".str.".toList ++ ·) Nat.toList_repr
  have lists := congrArg String.toList same
  rw [labels, labels] at lists
  have rest := List.append_cancel_left lists
  split at rest <;> split at rest
  · omega
  · cases rest
  · cases rest
  · have digits := List.tail_eq_of_cons_eq rest
    rw [← Nat.ofDigitChars_ten_toDigits (n := first), digits, Nat.ofDigitChars_ten_toDigits]

theorem textFrom?_textLabel {texts : List String} {position : Nat} {content : String}
    (start : Nat) (found : texts[position]? = some content) :
    textFrom? (Module.textLabel (start + position)) start texts = some content := by
  induction texts generalizing start position with
  | nil => cases found
  | cons first rest ih =>
    rw [textFrom?]
    cases position with
    | zero =>
      cases found
      exact if_pos rfl
    | succ position =>
      have other : Module.textLabel start ≠ Module.textLabel (start + (position + 1)) := by
        intro same
        have := textLabel_injective same
        omega
      rw [if_neg other, Nat.add_comm position, ← Nat.add_assoc]
      exact ih _ found

theorem read_text {R : Type} {meaning : Interpretation R} {texts : List String} {position : Nat}
    {content : String} (length : Nat) (state : State R) (found : texts[position]? = some content) :
    (Value.text (Module.textLabel position) length).read meaning texts state =
      some (.text content) := by
  have shown := textFrom?_textLabel 0 found
  rw [Nat.zero_add] at shown
  rw [Value.read, shown]
  rfl

end Kronk.IR

namespace Kronk.Lowering

open IR (State executeAll)
open Source (Scalar World Evaluation)

variable {α : Type} {code : List IR.Instruction}

variable {operation : IR.Operation} {callee : IR.Callee} {operand : Operand}

theorem getElem?_of_prefix {first second : List α} {position : Nat} {value : α}
    (starts : first <+: second) (found : first[position]? = some value) :
    second[position]? = some value := by
  obtain ⟨rest, same⟩ := starts
  rw [← same, List.getElem?_append_left (List.getElem?_eq_some_iff.mp found).1, found]

/-! ## Benches of scalar programs -/

/-- The operand is no result, or a temporary below a bound. -/
def Below (bound : Nat) (value : IR.Value) : Prop :=
  ∀ name, value.resultName? = some name → ∃ index, name = .temporary index ∧ index < bound

theorem Below.mono {bound more : Nat} {value : IR.Value} (below : Below bound value)
    (larger : bound ≤ more) : Below more value := by
  intro name same
  obtain ⟨index, isTemporary, less⟩ := below name same
  exact ⟨index, isTemporary, Nat.lt_of_lt_of_le less larger⟩

def IsScalarType (type : Ty) : Prop := type = .bool ∨ type = .real

/-- The results of the routines that scalar programs call. -/
def routineResult? (name : String) : Option IR.Ty :=
  [("_kronk_zero_div_check", .void), ("_kmath_puiss", .double), ("_kio_afficher", .void)].lookup
    name

/-- The program stands first, and the routines that scalar programs call are declared with their
results. -/
def Draft.Declares (draft : Draft) : Prop :=
  draft.functions[0]?.map IR.Function.name = some "main" ∧
    ∀ function ∈ draft.functions, ∀ result, routineResult? function.name = some result →
      function.result = result

/-- A bench on which a scalar program is lowered: names stand for scalars, and the module has no
functions of its own. -/
structure ScalarBench (module file : String) (bench : Workbench) : Prop where
  id : bench.frame.module.id = module
  functions : ∀ name, bench.frame.module.functions.get? name = none
  source : bench.frame.module.runtime = none
  named : ∃ position length, bench.frame.fileName = .text (IR.Module.textLabel position) length ∧
    bench.frame.draft.texts[position]? = some file
  valid : bench.frame.draft.Valid
  declares : bench.frame.draft.Declares
  slots : ∀ name binding, bench.binding? name = some binding →
    Below bench.frame.draft.temporaries binding.address ∧ IsScalarType binding.type
  scopes : bench.frame.scopes ≠ []

/-- Straight code was lowered on a bench of a scalar program. -/
structure Lowers (module file : String) (before : Workbench) (code : List IR.Instruction)
    (after : Workbench) : Prop where
  grows : Grows before.frame.draft code after.frame.draft
  keeps : Keeps before after
  texts : before.frame.draft.texts <+: after.frame.draft.texts
  scalar : ScalarBench module file after

section Lowers

variable {module file : String} {before after : Workbench}

theorem ScalarBench.lowers (scalar : ScalarBench module file before)
    (grows : Grows before.frame.draft code after.frame.draft) (keeps : Keeps before after)
    (texts : before.frame.draft.texts <+: after.frame.draft.texts)
    (declares : after.frame.draft.Declares) : Lowers module file before code after := by
  refine ⟨grows, keeps, texts, ?_⟩
  constructor
  · rw [keeps.module]
    exact scalar.id
  · rw [keeps.module]
    exact scalar.functions
  · rw [keeps.module]
    exact scalar.source
  · obtain ⟨position, length, isText, found⟩ := scalar.named
    refine ⟨position, length, ?_, getElem?_of_prefix texts found⟩
    rw [keeps.file]
    exact isText
  · exact grows.valid scalar.valid
  · exact declares
  · intro name binding isBound
    rw [keeps.binding] at isBound
    obtain ⟨below, isScalar⟩ := scalar.slots name binding isBound
    exact ⟨below.mono grows.temporaries, isScalar⟩
  · rw [← List.length_pos_iff, keeps.depth]
    exact List.length_pos_iff.mpr scalar.scopes

namespace Lowers

theorem refl (scalar : ScalarBench module file before) : Lowers module file before [] before :=
  scalar.lowers (.of_same rfl rfl rfl rfl rfl) (.refl before) (List.prefix_refl _) scalar.declares

theorem trans {middle : Workbench} {first second : List IR.Instruction}
    (former : Lowers module file before first middle)
    (latter : Lowers module file middle second after) (valid : before.frame.draft.Valid) :
    Lowers module file before (first ++ second) after where
  grows := former.grows.trans latter.grows valid
  keeps := by
    have before := former.keeps
    have after := latter.keeps
    constructor
    · rw [after.module, before.module]
    · intro name
      rw [after.binding, before.binding]
    · rw [after.activation, before.activation]
    · rw [after.depth, before.depth]
    · rw [after.outer, before.outer]
    · rw [after.file, before.file]
  texts := former.texts.trans latter.texts
  scalar := latter.scalar

theorem binding? (lowers : Lowers module file before code after) :
    after.binding? = before.binding? :=
  funext lowers.keeps.binding

end Lowers

def Workbench.withDraft (bench : Workbench) (draft : Draft) : Workbench :=
  { bench with frame := { bench.frame with draft := draft } }

theorem Keeps.withDraft (bench : Workbench) (draft : Draft) : Keeps bench (bench.withDraft draft) :=
  ⟨rfl, fun _ => rfl, rfl, rfl, rfl, rfl⟩

theorem Draft.Declares.of_heads {before after : Draft} (declares : before.Declares)
    (same : after.functions.map head = before.functions.map head) : after.Declares := by
  have first : ∀ draft : Draft, (draft.functions.map head)[0]?.map IR.Function.name =
      draft.functions[0]?.map IR.Function.name := by
    intro draft
    rw [List.getElem?_map, Option.map_map]
    rfl
  constructor
  · rw [← first, same, first]
    exact declares.1
  · intro function member result isRoutine
    have inside : head function ∈ before.functions.map head := same ▸ List.mem_map_of_mem member
    obtain ⟨other, isOther, sameHead⟩ := List.mem_map.mp inside
    have sameName : (head other).name = (head function).name := by rw [sameHead]
    have sameResult : (head other).result = (head function).result := by rw [sameHead]
    change other.name = function.name at sameName
    change other.result = function.result at sameResult
    rw [← sameName] at isRoutine
    rw [← sameResult]
    exact declares.2 other isOther result isRoutine

theorem Draft.heads_mapBlocks {draft : Draft} {change : List IR.Block → List IR.Block} :
    (draft.mapBlocks change).functions.map head = draft.functions.map head := by
  apply List.ext_getElem?
  intro index
  change ((draft.functions.modify draft.place.function _).map head)[index]? = _
  rw [List.getElem?_map, List.getElem?_map, List.getElem?_modify]
  cases draft.functions[index]? with
  | none => rfl
  | some function => by_cases here : draft.place.function = index <;> simp [here, head]

theorem ScalarBench.append (scalar : ScalarBench module file before) {instruction : IR.Instruction}
    {temporaries : Nat} (larger : before.frame.draft.temporaries ≤ temporaries)
    (fresh : ∀ name, instruction.result = some name →
      name.IsWithin before.frame.draft.temporaries temporaries) :
    Lowers module file before [instruction] (before.withDraft
      (Draft.mapBlocks (Draft.noted { before.frame.draft with temporaries })
        (appended before.frame.draft.place.block [instruction]))) :=
  scalar.lowers (.instruction instruction larger fresh) (.withDraft before _) (List.prefix_refl _)
    (Draft.Declares.of_heads scalar.declares Draft.heads_mapBlocks)

theorem ScalarBench.compute {value : IR.Value} (scalar : ScalarBench module file before)
    (outcome : Lower.emit (Emit.compute operation) before = .ok value after) :
    value = .result (.temporary before.frame.draft.temporaries) operation.resultType ∧
      after.frame.draft.temporaries = before.frame.draft.temporaries + 1 ∧ Lowers module file before
        [⟨some (.temporary before.frame.draft.temporaries), operation⟩] after := by
  cases outcome
  refine ⟨rfl, rfl, scalar.append (Nat.le_succ _) ?_⟩
  intro name same index isTemporary
  cases same
  cases isTemporary
  exact ⟨Nat.le_refl _, Nat.lt_succ_self _⟩

theorem ScalarBench.perform (scalar : ScalarBench module file before)
    (outcome : Lower.emit (Emit.perform operation) before = .ok () after) :
    Lowers module file before [⟨none, operation⟩] after := by
  cases outcome
  apply scalar.append (Nat.le_refl _)
  intro name same
  cases same

theorem emit_ok {α : Type} {emission : Emit α} {value : α}
    (outcome : Lower.emit emission before = .ok value after) :
    value = (emission before.frame.draft).1 ∧
      after = before.withDraft (emission before.frame.draft).2 := by
  cases outcome
  exact ⟨rfl, rfl⟩

/-- A routine is declared with its result, unless that was done before. -/
theorem ScalarBench.declare {function : IR.Function} (scalar : ScalarBench module file before)
    (declared : function.blocks = [])
    (isRoutine : routineResult? function.name = some function.result)
    (outcome : Lower.emit (do Emit.callee (← Emit.declare function)) before = .ok callee after) :
    callee.name = function.name ∧ callee.result = function.result ∧
      Lowers module file before [] after := by
  obtain ⟨rfl, rfl⟩ := emit_ok outcome
  rcases declare_cases function before.frame.draft with ⟨found, member, sameName, equation⟩ |
    equation
  · rw [equation]
    refine ⟨sameName, ?_, .refl scalar⟩
    rw [← sameName] at isRoutine
    exact scalar.declares.2 found member _ isRoutine
  · rw [equation]
    have grows := Grows.declaration declared scalar.valid
    refine ⟨rfl, rfl, scalar.lowers grows (.withDraft before _) (List.prefix_refl _) ⟨?_, ?_⟩⟩
    · obtain ⟨program, first, named⟩ := Option.map_eq_some_iff.mp scalar.declares.1
      change (before.frame.draft.functions ++ [function])[0]?.map _ = _
      rw [List.getElem?_append_left (List.getElem?_eq_some_iff.mp first).1, first, Option.map_some,
        named]
    · intro other member result isOther
      rcases List.mem_append.mp member with old | new
      · exact scalar.declares.2 other old result isOther
      · obtain rfl := List.mem_singleton.mp new
        rw [isRoutine] at isOther
        exact Option.some.inj isOther

private theorem constantText_eq (content : String) (draft : Draft) :
    Emit.constantText content draft =
      match draft.texts.findIdx? (· == content) with
      | some position =>
        (.text (IR.Module.textLabel position) ((Text.bytes content).length + 1), draft)
      | none =>
        (.text (IR.Module.textLabel draft.texts.length) ((Text.bytes content).length + 1),
          { draft with texts := draft.texts ++ [content] }) := by
  unfold Emit.constantText
  simp only [bind, StateT.bind, get, getThe, MonadStateOf.get, StateT.get, pure]
  cases draft.texts.findIdx? (· == content) <;> rfl

/-- A constant text is one of the texts of the module. -/
theorem ScalarBench.constantText {content : String} {value : IR.Value}
    (scalar : ScalarBench module file before)
    (outcome : Lower.emit (Emit.constantText content) before = .ok value after) :
    Lowers module file before [] after ∧
      ∃ position length, value = .text (IR.Module.textLabel position) length ∧
        after.frame.draft.texts[position]? = some content := by
  obtain ⟨rfl, rfl⟩ := emit_ok outcome
  rw [constantText_eq]
  cases found : before.frame.draft.texts.findIdx? (· == content) with
  | some position =>
    obtain ⟨inside, isContent, _⟩ := List.findIdx?_eq_some_iff_getElem.mp found
    refine ⟨.refl scalar, position, _, rfl, ?_⟩
    change before.frame.draft.texts[position]? = _
    rw [List.getElem?_eq_getElem inside]
    simpa using isContent
  | none =>
    have grows : Grows before.frame.draft []
        { before.frame.draft with texts := before.frame.draft.texts ++ [content] } :=
      .of_same rfl rfl rfl rfl rfl
    refine ⟨scalar.lowers grows (.withDraft before _) (List.prefix_append _ _) scalar.declares,
      before.frame.draft.texts.length, _, rfl, ?_⟩
    change (before.frame.draft.texts ++ [content])[before.frame.draft.texts.length]? = _
    simp

end Lowers

/-! ## What code computes -/

theorem rel_bind {β γ δ : Type} {relation : α → β → Prop} {later : γ → δ → Prop}
    {first : Option α} {second : Option β} {next : α → Option γ} {other : β → Option δ}
    (related : Option.Rel relation first second)
    (continues : ∀ value datum, relation value datum →
      Option.Rel later (next value) (other datum)) :
    Option.Rel later (first.bind next) (second.bind other) := by
  cases related with
  | some holds => exact continues _ _ holds
  | none => exact .none

theorem rel_mono {β : Type} {relation weaker : α → β → Prop} {first : Option α}
    {second : Option β} (related : Option.Rel relation first second)
    (implies : ∀ value datum, second = some datum → relation value datum → weaker value datum) :
    Option.Rel weaker first second := by
  cases related with
  | some holds => exact .some (implies _ _ rfl holds)
  | none => exact .none

/-- Two states agree on the temporaries below a bound. -/
def Agree {R : Type} (bound : Nat) (state final : State R) : Prop :=
  ∀ index, index < bound → final.results (.temporary index) = state.results (.temporary index)

section Computation

variable {R : Type} (meaning : Interpretation R) (texts : List String)

/-- The names of a scope stand for slots of their own, which hold the variables of the world. -/
structure Matches (bindings : String → Option Binding) (world : World R) (state : State R) :
    Prop where
  calls : state.calls = world.calls
  absent : ∀ name, bindings name = none → world.values.get? name = none
  held : ∀ name binding, bindings name = some binding → ∃ slot value,
    binding.address.slot? meaning texts state = some slot ∧
      state.memory[slot]? = some (some value.datum) ∧
      world.values.get? name = some value ∧ value.type = binding.type
  apart : ∀ first second one other slot, bindings first = some one →
    bindings second = some other → one.address.slot? meaning texts state = some slot →
    other.address.slot? meaning texts state = some slot → first = second

def Holds (operand : Operand) (value : Scalar R) (state : State R) : Prop :=
  operand.value.read meaning texts state = some value.datum ∧ value.type = operand.type

/-- Straight code does what an evaluation does, from every state that matches a world and has what
is given.  `result` holds for the value and the state after it. -/
def Computes {α : Type} (bindings : String → Option Binding) (given : State R → Prop)
    (code : List IR.Instruction) (evaluation : Evaluation R α) (result : α → State R → Prop) :
    Prop :=
  ∀ world state, Matches meaning texts bindings world state → given state →
    Option.Rel (fun outcome final =>
        Matches meaning texts bindings outcome.2 final ∧ result outcome.1 final)
      (evaluation world) (executeAll meaning texts code state)

end Computation

section Computations

variable {R : Type} {meaning : Interpretation R} {texts : List String}

variable {bound : Nat} {state final : State R} {value : IR.Value}

/-- Growth defines new results only. -/
theorem Grows.agree {before after : Draft} (grows : Grows before code after)
    (executed : executeAll meaning texts code state = some final) :
    Agree before.temporaries state final := by
  intro index inside
  apply IR.results_of_executeAll executed
  intro member
  have outside := (grows.fresh _ member index rfl).1
  exact absurd inside (Nat.not_lt.mpr outside)

theorem Below.read (below : Below bound value) (agree : Agree bound state final) :
    value.read meaning texts final = value.read meaning texts state := by
  cases value with
  | result name type =>
    obtain ⟨index, rfl, inside⟩ := below name rfl
    exact agree index inside
  | integer type value => cases type <;> rfl
  | _ => rfl

theorem Below.slot? (below : Below bound value) (agree : Agree bound state final) :
    value.slot? meaning texts final = value.slot? meaning texts state := by
  unfold IR.Value.slot?
  rw [below.read agree]

theorem Holds.kept {value : Scalar R} (holds : Holds meaning texts operand value state)
    (below : Below bound operand.value) (agree : Agree bound state final) :
    Holds meaning texts operand value final := by
  refine ⟨?_, holds.2⟩
  rw [below.read agree]
  exact holds.1

section Matching

variable {bindings : String → Option Binding} {bound : Nat} {world : World R}
  {state final : State R}

/-- What neither touches slots nor calls routines changes nothing for the variables. -/
theorem Matches.kept (matched : Matches meaning texts bindings world state)
    (slots : ∀ name binding, bindings name = some binding → Below bound binding.address)
    (agree : Agree bound state final) (memory : final.memory = state.memory)
    (calls : final.calls = state.calls) : Matches meaning texts bindings world final where
  calls := calls.trans matched.calls
  absent := matched.absent
  held name binding isBound := by
    obtain ⟨slot, value, isSlot, holds, isValue, typed⟩ := matched.held name binding isBound
    refine ⟨slot, value, ?_, ?_, isValue, typed⟩
    · rw [(slots name binding isBound).slot? agree]
      exact isSlot
    · rw [memory]
      exact holds
  apart first second one other slot isFirst isSecond atFirst atSecond := by
    rw [(slots first one isFirst).slot? agree] at atFirst
    rw [(slots second other isSecond).slot? agree] at atSecond
    exact matched.apart first second one other slot isFirst isSecond atFirst atSecond

theorem Matches.assign {name : String} {binding : Binding} {slot : Nat} {value : Scalar R}
    (matched : Matches meaning texts bindings world state) (isBound : bindings name = some binding)
    (isSlot : binding.address.slot? meaning texts state = some slot)
    (typed : value.type = binding.type) (results : final.results = state.results)
    (memory : final.memory = state.memory.set slot (some value.datum))
    (calls : final.calls = state.calls) : Matches meaning texts bindings
      { world with values := world.values.insert name value } final := by
  have same : ∀ operand : IR.Value, operand.slot? meaning texts final =
      operand.slot? meaning texts state := by
    intro operand
    unfold IR.Value.slot?
    cases operand with
    | result other type => simp only [IR.Value.read, results]
    | integer type value => cases type <;> rfl
    | _ => rfl
  constructor
  · exact calls.trans matched.calls
  · intro other isAbsent
    rw [Table.get?_insert, if_neg]
    · exact matched.absent other isAbsent
    · rintro rfl
      rw [isBound] at isAbsent
      cases isAbsent
  · intro other otherBinding isOther
    obtain ⟨otherSlot, otherValue, atOther, holds, isValue, otherTyped⟩ :=
      matched.held other otherBinding isOther
    by_cases here : other = name
    · subst here
      rw [isBound, Option.some.injEq] at isOther
      subst isOther
      rw [isSlot, Option.some.injEq] at atOther
      subst atOther
      refine ⟨slot, value, ?_, ?_, ?_, typed⟩
      · rw [same]
        exact isSlot
      · rw [memory, List.getElem?_set_self (List.getElem?_eq_some_iff.mp holds).1]
      · rw [Table.get?_insert, if_pos rfl]
    · have apart : slot ≠ otherSlot := by
        rintro rfl
        exact here (matched.apart other name _ _ slot isOther isBound atOther isSlot)
      refine ⟨otherSlot, otherValue, ?_, ?_, ?_, otherTyped⟩
      · rw [same]
        exact atOther
      · rw [memory, List.getElem?_set_ne apart]
        exact holds
      · rw [Table.get?_insert, if_neg here]
        exact isValue
  · intro first second one other shared isFirst isSecond atFirst atSecond
    rw [same] at atFirst atSecond
    exact matched.apart first second one other shared isFirst isSecond atFirst atSecond

end Matching

namespace Computes

variable {α β : Type} {bindings : String → Option Binding} {given : State R → Prop}
  {code : List IR.Instruction} {evaluation : Evaluation R α} {result : α → State R → Prop}

theorem bind {later : List IR.Instruction} {next : α → Evaluation R β} {last : β → State R → Prop}
    (first : Computes meaning texts bindings given code evaluation result)
    (second : ∀ value, Computes meaning texts bindings (result value) later (next value) last) :
    Computes meaning texts bindings given (code ++ later) (evaluation >>= next) last := by
  intro world state matched holds
  rw [IR.executeAll_append]
  refine rel_bind (first world state matched holds) ?_
  intro outcome final related
  exact second outcome.1 outcome.2 final related.1 related.2

theorem pure {value : α} (holds : ∀ state, given state → result value state) :
    Computes meaning texts bindings given [] (pure value) result :=
  fun _ state matched isGiven => .some ⟨matched, holds state isGiven⟩

theorem weaken {stronger : State R → Prop} {weaker : α → State R → Prop}
    (computes : Computes meaning texts bindings given code evaluation result)
    (isGiven : ∀ state, stronger state → given state)
    (implies : ∀ value state, result value state → weaker value state) :
    Computes meaning texts bindings stronger code evaluation weaker := by
  intro world state matched holds
  apply rel_mono (computes world state matched (isGiven state holds))
  intro outcome final _ related
  exact ⟨related.1, implies _ _ related.2⟩

theorem map {last : β → State R → Prop} {change : α → β}
    (computes : Computes meaning texts bindings given code evaluation result)
    (implies : ∀ value state, result value state → last (change value) state) :
    Computes meaning texts bindings given code
      (evaluation >>= fun value => Pure.pure (change value)) last := by
  have whole : Computes meaning texts bindings given (code ++ [])
      (evaluation >>= fun value => Pure.pure (change value)) last :=
    computes.bind fun value => pure (implies value)
  rwa [List.append_nil] at whole

section Instructions

variable {bound : Nat}
  (slots : ∀ name binding, bindings name = some binding → Below bound binding.address)

theorem agree_define (state : State R) (datum : Option (Datum R)) :
    Agree bound state (state.define (.temporary bound) datum) := by
  intro index inside
  have other : index ≠ bound := Nat.ne_of_lt inside
  simp [State.define, other]

include slots in
theorem define {datum : Datum R} {value : α} (executes : ∀ state, given state →
      operation.execute meaning texts state = some (some datum, state)) :
    Computes meaning texts bindings given [⟨some (.temporary bound), operation⟩]
      (Pure.pure value) fun outcome final =>
        outcome = value ∧ final.results (.temporary bound) = some datum := by
  intro world state matched holds
  rw [IR.executeAll_singleton, IR.Instruction.execute, executes state holds]
  refine .some ⟨matched.kept slots (agree_define state _) rfl rfl, rfl, ?_⟩
  simp [State.define]

include slots in
theorem defineScalar {layout : IR.Ty} {type : Ty} {value : Scalar R} (typed : value.type = type)
    (executes : ∀ state, given state →
      operation.execute meaning texts state = some (some value.datum, state)) :
    Computes meaning texts bindings given [⟨some (.temporary bound), operation⟩]
      (Pure.pure value) (Holds meaning texts ⟨.result (.temporary bound) layout, type, false⟩) := by
  apply (define slots executes).weaken fun _ isGiven => isGiven
  intro outcome final holds
  rw [holds.1]
  exact ⟨holds.2, typed⟩

include slots in
/-- A routine is called, and its answer is the result. -/
theorem call {arguments : List IR.Value} {data : List (Datum R)} (isReal : callee.result = .double)
    (reads : ∀ state, given state →
      arguments.mapM (IR.Value.read meaning texts state) = some data) :
    Computes meaning texts bindings given [⟨some (.temporary bound), .call callee arguments⟩]
      (Evaluation.call meaning callee.name data)
      fun answer final => final.results (.temporary bound) = some (.real answer) := by
  intro world state matched holds
  simp only [IR.executeAll_singleton, IR.Instruction.execute, IR.Operation.execute,
    reads state holds, isReal, Evaluation.call, matched.calls, IR.answered, Option.bind_eq_bind,
    Option.bind_some, Option.pure_def]
  cases meaning.answer world.calls ⟨callee.name, data⟩ with
  | none => exact .none
  | some answer =>
    refine .some ⟨?_, by simp [State.define]⟩
    have kept : Matches meaning texts bindings world
        (state.define (.temporary bound) (some (.real answer))) :=
      matched.kept slots (agree_define state _) rfl rfl
    exact ⟨rfl, kept.absent, kept.held, kept.apart⟩

theorem callVoid {arguments : List IR.Value} {data : List (Datum R)}
    (isVoid : callee.result = .void) (reads : ∀ state, given state →
      arguments.mapM (IR.Value.read meaning texts state) = some data) :
    Computes meaning texts bindings given [⟨none, .call callee arguments⟩]
      (Evaluation.call meaning callee.name data) fun _ _ => True := by
  intro world state matched holds
  simp only [IR.executeAll_singleton, IR.Instruction.execute, IR.Operation.execute,
    reads state holds, isVoid, Evaluation.call, matched.calls, IR.answered, Option.bind_eq_bind,
    Option.bind_some, Option.pure_def]
  cases meaning.answer world.calls ⟨callee.name, data⟩ with
  | none => exact .none
  | some answer => exact .some ⟨⟨rfl, matched.absent, matched.held, matched.apart⟩, trivial⟩

end Instructions

end Computes

/-! ## Lowering of scalars -/

/-- The operand is a scalar known below a bound. -/
structure IsScalar (bound : Nat) (operand : Operand) : Prop where
  below : Below bound operand.value
  typed : IsScalarType operand.type

theorem IsScalar.mono {more : Nat} (isScalar : IsScalar bound operand) (larger : bound ≤ more) :
    IsScalar more operand :=
  ⟨isScalar.below.mono larger, isScalar.typed⟩

theorem Holds.truth {scalar : Scalar R} {inPlace : Bool}
    (holds : Holds meaning texts ⟨value, .bool, inPlace⟩ scalar state) :
    ∃ truth, scalar = .truth truth ∧ value.read meaning texts state = some (.truth truth) := by
  obtain ⟨reads, typed⟩ := holds
  cases scalar with
  | truth truth => exact ⟨truth, rfl, reads⟩
  | real number => cases typed

theorem Holds.real {scalar : Scalar R} {inPlace : Bool}
    (holds : Holds meaning texts ⟨value, .real, inPlace⟩ scalar state) :
    ∃ number, scalar = .real number ∧ value.read meaning texts state = some (.real number) := by
  obtain ⟨reads, typed⟩ := holds
  cases scalar with
  | truth truth => cases typed
  | real number => exact ⟨number, rfl, reads⟩

theorem below_result (index : Nat) (type : IR.Ty) :
    Below (index + 1) (.result (.temporary index) type) := by
  intro name same
  cases same
  exact ⟨index, rfl, Nat.lt_succ_self _⟩

section Lowering

variable {module file : String} {before after : Workbench}

theorem ScalarBench.belows (scalar : ScalarBench module file before) :
    ∀ name binding, before.binding? name = some binding →
      Below before.frame.draft.temporaries binding.address :=
  fun name binding isBound => (scalar.slots name binding isBound).1

/-- Lowering went from one bench to another by straight code that computes a scalar. -/
def Yields {γ : Type} (module file : String) (meaning : Interpretation R) (texts : List String)
    (before after : Workbench) (given : γ → State R → Prop)
    (evaluation : γ → Evaluation R (Scalar R)) (operand : Operand) : Prop :=
  ∃ code, Lowers module file before code after ∧
    IsScalar after.frame.draft.temporaries operand ∧
    (after.frame.draft.texts <+: texts → ∀ known, Computes meaning texts before.binding?
      (given known) code (evaluation known) (Holds meaning texts operand))

theorem emit_bind_eq_ok {α β : Type} {first : Emit α} {next : α → Emit β} {before after : Workbench}
    {value : β} (outcome : Lower.emit (first >>= next) before = .ok value after) :
    ∃ middle between, Lower.emit first before = .ok middle between ∧
      Lower.emit (next middle) between = .ok value after :=
  bind_eq_ok outcome

/-- Code that neither touches slots nor calls routines computes a value. -/
theorem Lowers.computes {given : State R → Prop} {value : Scalar R}
    (lowers : Lowers module file before code after) (scalar : ScalarBench module file before)
    (executes : ∀ state, given state → ∃ final, executeAll meaning texts code state = some final ∧
      final.memory = state.memory ∧ final.calls = state.calls ∧
      Holds meaning texts operand value final) :
    Computes meaning texts before.binding? given code (pure value)
      (Holds meaning texts operand) := by
  intro world state matched holds
  obtain ⟨final, executed, memory, calls, isValue⟩ := executes state holds
  rw [executed]
  exact .some ⟨matched.kept scalar.belows (lowers.grows.agree executed) memory calls, isValue⟩

/-- What is known of earlier results stays true. -/
theorem Lowers.frame {α : Type} {given kept : State R → Prop} {evaluation : Evaluation R α}
    {result : α → State R → Prop} {bindings : String → Option Binding}
    (lowers : Lowers module file before code after)
    (computes : Computes meaning texts bindings given code evaluation result)
    (stable : ∀ state final, Agree before.frame.draft.temporaries state final →
      kept state → kept final) :
    Computes meaning texts bindings (fun state => given state ∧ kept state) code evaluation
      fun value final => result value final ∧ kept final := by
  intro world state matched holds
  apply rel_mono (computes world state matched holds.1)
  intro outcome final executed related
  exact ⟨related.1, related.2, stable state final (lowers.grows.agree executed) holds.2⟩

end Lowering

end Computations

end Kronk.Lowering
