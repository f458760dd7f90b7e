import Kronk.Proofs.Copier
import Kronk.Proofs.Effect

/-!
# The code of expressions

The code of an expression is straight, and it uses only the addresses of names in scope and what it
defines itself.
-/

namespace Kronk.Source

mutual

def Expr.mentions : Expr → List String
  | .boolean _ _ => []
  | .number _ _ => []
  | .string _ _ => []
  | .identifier _ name => [name]
  | .list _ elements => mentionsAll elements
  | .index _ list index => list.mentions ++ index.mentions
  | .slice _ list start stop => list.mentions ++ mentionsOption start ++ mentionsOption stop
  | .entity _ _ _ fields => mentionsOptions fields
  | .field _ entity _ => entity.mentions
  | .binary _ _ left right => left.mentions ++ right.mentions
  | .unary _ _ operand => operand.mentions
  | .assignment _ target value => target.mentions ++ value.mentions
  | .call _ _ arguments => mentionsAll arguments

def mentionsAll : List Expr → List String
  | [] => []
  | expression :: rest => expression.mentions ++ mentionsAll rest

def mentionsOption : Option Expr → List String
  | none => []
  | some expression => expression.mentions

def mentionsOptions : List (Option Expr) → List String
  | [] => []
  | expression :: rest => mentionsOption expression ++ mentionsOptions rest

end

end Kronk.Source

namespace Kronk.Lowering

open IR (results external)

variable {address : IR.Value} {operand : Operand} {fragment : Fragment} {names : List String}

/-- The addresses that some names stand for are known. -/
structure Binds (names : List String) (known : Locals) (bench : Workbench) :
    Prop where
  valid : bench.frame.draft.Valid
  bound : ∀ name ∈ names, ∀ found, (bench.frame.scopes.headD {}).bindings.get? name = some found →
    Known known found.address
  file : bench.frame.fileName.isLocal = false

/-- If it succeeds, the computation appends straight code that uses known locals only; `shape` holds
for what is known after it, for the code and for its value. -/
def Fetches {α : Type} (names : List String) (known : Locals) (lowering : Lower α)
    (shape : Locals → List IR.Instruction → α → Prop) : Prop :=
  ∀ bench value after, Binds names known bench → lowering bench = .ok value after →
    ∃ code, Grows bench.frame.draft code after.frame.draft ∧
      Needs known code ∧ Binds names (known ++ results code) after ∧
      shape (known ++ results code) code value

/-- If it succeeds, the computation appends straight code that uses known locals only; `result`
holds for its value and for what is known after it. -/
def Draws {α : Type} (names : List String) (known : Locals) (lowering : Lower α)
    (result : Locals → α → Prop) : Prop :=
  Fetches names known lowering fun more _ => result more

theorem Binds.emit {known : Locals} {bench : Workbench} {code : List IR.Instruction} {draft : Draft}
    (binds : Binds names known bench) (grows : Grows bench.frame.draft code draft) :
    Binds names (known ++ results code) { bench with frame := { bench.frame with draft } } := by
  refine ⟨grows.valid binds.valid, fun name member found same => ?_, binds.file⟩
  exact (binds.bound name member found same).mono (Locals.subset_append _ _)

/-- If it succeeds, the computation appends straight code that uses known locals only and is guarded
after the code before; `shape` holds for what is known after it, for both together and for its
value. -/
def DrawsAfter {α : Type} (names : List String) (known : Locals) (before : List IR.Instruction)
    (lowering : Lower α) (shape : Locals → List IR.Instruction → α → Prop) : Prop :=
  ∀ bench value after, Binds names known bench → lowering bench = .ok value after →
    ∃ code, Grows bench.frame.draft code after.frame.draft ∧ Supplied known code ∧
      (Guarded before → Guarded (before ++ code)) ∧ Binds names (known ++ results code) after ∧
      shape (known ++ results code) (before ++ code) value

namespace DrawsAfter

variable {α β : Type} {names : List String} {known : Locals} {before : List IR.Instruction}

theorem of_fetches {lowering : Lower α} {shape : Locals → List IR.Instruction → α → Prop}
    (fetches : Fetches names known lowering fun more code => shape more (before ++ code)) :
    DrawsAfter names known before lowering shape := by
  intro bench value after binds outcome
  obtain ⟨code, grows, needs, bindsAfter, holds⟩ := fetches bench value after binds outcome
  exact ⟨code, grows, needs.toSupplied, fun guarded => guarded.append needs.guarded, bindsAfter,
    holds⟩

theorem fetches {lowering : Lower α} {shape : Locals → List IR.Instruction → α → Prop}
    (follows : DrawsAfter names known [] lowering shape) : Fetches names known lowering shape := by
  intro bench value after binds outcome
  obtain ⟨code, grows, supplied, guarded, bindsAfter, holds⟩ :=
    follows bench value after binds outcome
  exact ⟨code, grows, ⟨supplied, guarded .nil⟩, bindsAfter, holds⟩

theorem bind {first : Lower α} {next : α → Lower β}
    {middle : Locals → List IR.Instruction → α → Prop}
    {shape : Locals → List IR.Instruction → β → Prop} (starts : Fetches names known first middle)
    (continues : ∀ more code value, known ⊆ more → middle more code value →
      DrawsAfter names more (before ++ code) (next value) shape) :
    DrawsAfter names known before (first >>= next) shape := by
  intro bench value after binds outcome
  obtain ⟨between, bench', outcome₁, outcome₂⟩ := bind_eq_ok outcome
  obtain ⟨code, grows, needs, binds₁, holds⟩ := starts bench between bench' binds outcome₁
  obtain ⟨later, growsLater, supplied, guarded, binds₂, holdsLater⟩ :=
    continues _ code _ (Locals.subset_append _ _) holds bench' value after binds₁ outcome₂
  rw [Locals.append_assoc, ← IR.results_append] at binds₂ holdsLater
  rw [List.append_assoc] at guarded holdsLater
  refine ⟨code ++ later, grows.trans growsLater binds.valid, needs.toSupplied.append supplied,
    fun guardedBefore => ?_, binds₂, holdsLater⟩
  exact guarded (guardedBefore.append needs.guarded)

end DrawsAfter

namespace Fetches

variable {α β : Type} {names : List String} {known : Locals}

theorem bind {first : Lower α} {next : α → Lower β}
    {middle : Locals → List IR.Instruction → α → Prop}
    {shape : Locals → List IR.Instruction → β → Prop} (starts : Fetches names known first middle)
    (continues : ∀ more code value, known ⊆ more → middle more code value →
      Fetches names more (next value) fun more later => shape more (code ++ later)) :
    Fetches names known (first >>= next) shape := by
  apply DrawsAfter.fetches
  refine .bind starts fun more code value subset holds => .of_fetches ?_
  exact continues more code value subset holds

theorem emit {emission : Emit α} {shape : Locals → List IR.Instruction → α → Prop}
    (writes : Writes known emission shape) : Fetches names known (Lower.emit emission) shape := by
  rintro bench value after binds ⟨⟩
  obtain ⟨code, grows, needs, holds⟩ := writes _ binds.valid
  exact ⟨code, grows, needs, binds.emit grows, holds⟩

theorem pure {value : α} {shape : Locals → List IR.Instruction → α → Prop}
    (holds : shape known [] value) : Fetches names known (pure value) shape := by
  rintro bench _ _ binds ⟨⟩
  refine ⟨[], .of_same rfl rfl rfl rfl rfl, .nil, ?_, ?_⟩
  · rwa [IR.results_nil, Locals.append_nil]
  · rwa [IR.results_nil, Locals.append_nil]

theorem weaken {lowering : Lower α} {shape weaker : Locals → List IR.Instruction → α → Prop}
    (fetches : Fetches names known lowering shape)
    (implies : ∀ more code value, shape more code value → weaker more code value) :
    Fetches names known lowering weaker := by
  intro bench value after binds outcome
  obtain ⟨code, grows, needs, bindsAfter, holds⟩ := fetches bench value after binds outcome
  exact ⟨code, grows, needs, bindsAfter, implies _ code _ holds⟩

end Fetches

namespace Draws

variable {α β : Type} {names : List String} {known : Locals}

variable {result : Locals → α → Prop}

theorem pure {value : α} (holds : result known value) : Draws names known (pure value) result :=
  Fetches.pure holds

theorem bind {first : Lower α} {next : α → Lower β} {middle : Locals → α → Prop}
    {result : Locals → β → Prop} (starts : Draws names known first middle)
    (continues : ∀ more value, known ⊆ more → middle more value →
      Draws names more (next value) result) : Draws names known (first >>= next) result :=
  Fetches.bind starts fun more _ value => continues more value

theorem weaken {lowering : Lower α} {weaker : Locals → α → Prop}
    (draws : Draws names known lowering result)
    (implies : ∀ more value, result more value → weaker more value) :
    Draws names known lowering weaker :=
  Fetches.weaken draws fun more _ value => implies more value

theorem fail (line : Nat) (error : LowerError) :
    Draws names known (Lower.fail line error) result := by
  rintro bench value after _ ⟨⟩

theorem get : Draws names known get (Binds names) := by
  rintro bench _ _ binds ⟨⟩
  refine ⟨[], .of_same rfl rfl rfl rfl rfl, .nil, ?_, ?_⟩
  · rwa [IR.results_nil, Locals.append_nil]
  · rwa [IR.results_nil, Locals.append_nil]

theorem emit {emission : Emit α} (emits : Emits known emission result) :
    Draws names known (Lower.emit emission) result :=
  Fetches.emit emits

theorem guard {condition : Prop} [Decidable condition] {line : Nat} {error : LowerError}
    {next : Lower α} (draws : Draws names known next result) :
    Draws names known (do
      if condition then Lower.fail line error
      next) result := by
  split
  · have fails : Draws names known (Lower.fail line error : Lower PUnit) fun _ _ => False :=
      fail _ _
    exact .bind fails fun _ _ _ impossible => impossible.elim
  · exact draws

theorem recordFresh (type : Ty) (isKnown : Known known address) :
    Draws names known (Lower.recordFresh address type) fun more operand =>
      Known more operand.value := by
  rintro bench value after binds ⟨⟩
  refine ⟨[], .of_same rfl rfl rfl rfl rfl, .nil, ?_, ?_⟩
  · rw [IR.results_nil, Locals.append_nil]
    refine ⟨binds.valid, fun other member found same => ?_, binds.file⟩
    refine binds.bound other member found ?_
    rw [← same]
    dsimp only
    cases bench.frame.scopes <;> rfl
  · rw [IR.results_nil, Locals.append_nil]
    exact isKnown

theorem read {lowering : Lower α} {value : Workbench → α}
    (reads : ∀ bench, lowering bench = .ok (value bench) bench) :
    Draws names known lowering fun _ _ => True := by
  intro bench found after binds outcome
  rw [reads bench] at outcome
  cases outcome
  refine ⟨[], .of_same rfl rfl rfl rfl rfl, .nil, ?_, trivial⟩
  rwa [IR.results_nil, Locals.append_nil]

theorem viewpoint : Draws names known Lower.viewpoint fun _ _ => True := read fun _ => rfl

theorem ask (answer : Except Failure α) :
    Draws names known (Lower.ask answer) fun _ value => answer = .ok value := by
  cases answer with
  | ok value => exact .pure rfl
  | error failure => rintro bench value after _ ⟨⟩

theorem entity? (name : String) : Draws names known (Lower.entity? name) fun _ _ => True :=
  .bind .get fun _ _ _ _ => .bind viewpoint fun _ _ _ _ => (ask _).weaken fun _ _ _ => trivial

theorem resolve (line : Nat) (own : Option String) (written : Source.TypeName) :
    Draws names known (Lower.resolve line own written) fun _ _ => True := by
  induction written generalizing known with
  | builtin type => cases type <;> exact .pure trivial
  | list element ih =>
    exact .bind ih fun _ _ _ _ => .pure trivial
  | entity name symbol =>
    refine .bind .get fun _ _ _ _ => .bind viewpoint fun _ _ _ _ => ?_
    refine .bind (ask _) fun _ _ _ _ => .bind (ask _) fun _ _ _ _ => ?_
    split
    · exact .pure trivial
    · refine .bind (entity? name) fun _ found _ _ => ?_
      cases found with
      | none => exact .fail _ _
      | some entity => exact .pure trivial

theorem check {arguments : List IR.Value} (routine : Routine) (line : Nat)
    (isKnown : ∀ value ∈ arguments, Known known value) :
    Fetches names known (check routine line arguments) fun _ code _ =>
      ChecksAt routine line arguments code := by
  intro bench value after binds outcome
  apply Fetches.emit (.check routine line (.constant binds.file) isKnown) bench value after binds
  exact outcome

theorem convert? (target : Ty) (isKnown : Known known operand.value) :
    Draws names known (convert? operand target) fun more found =>
      ∀ converted ∈ found, Known more converted.value := by
  unfold Lowering.convert?
  split
  · refine .pure fun converted member => ?_
    cases member
    exact isKnown
  · split
    · refine .bind (.emit (.convert _ _ isKnown)) fun more value _ valueKnown => .pure ?_
      rintro converted ⟨⟩
      exact valueKnown
    · refine .bind (.emit (.convert _ _ isKnown)) fun more value _ valueKnown => .pure ?_
      rintro converted ⟨⟩
      exact valueKnown
    · exact .pure (by simp)

theorem widen (isKnown : Known known operand.value) :
    Draws names known (widen operand) fun more real => Known more real.value := by
  refine .bind (convert? .real isKnown) fun more found subset foundKnown => .pure ?_
  cases found with
  | none => exact isKnown.mono subset
  | some converted => exact foundKnown converted rfl

theorem scope : Draws names known Lower.scope fun more innermost =>
    ∀ name ∈ names, ∀ found, innermost.bindings.get? name = some found → Known more found.address :=
  .bind .get fun _ _ _ binds => .pure binds.bound

theorem binding (line : Nat) {name : String} (member : name ∈ names) :
    Draws names known (binding line name) fun more found => Known more found.address := by
  refine .bind scope fun more innermost _ bound => ?_
  split
  · next found same => exact .pure (bound name member found same)
  · exact .fail _ _

end Draws

/-- The value and the place of a fragment use the addresses of names in scope and what they define
themselves. -/
structure Fragment.Draws names (fragment : Fragment) : Prop where
  load : ∀ known, Lowering.Draws names known fragment.load fun more found =>
    ∀ operand ∈ found, Known more operand.value
  place : ∀ known, Lowering.Draws names known fragment.place fun more operand =>
    Known more operand.value

namespace Fragment.Draws

theorem value (draws : fragment.Draws names) (known : Locals) :
    Lowering.Draws names known fragment.value fun more operand => Known more operand.value := by
  refine .bind (draws.load known) fun more found _ foundKnown => ?_
  cases found with
  | none => exact .fail _ _
  | some operand => exact .pure (foundKnown operand rfl)

theorem ofLoad {line : Nat} {load : Lower (Option Operand)}
    (draws : ∀ known, Lowering.Draws names known load fun more found =>
      ∀ operand ∈ found, Known more operand.value) : (Fragment.ofLoad line load).Draws names :=
  ⟨draws, fun _ => .fail _ _⟩

theorem ofValue {line : Nat} {value : Lower Operand}
    (draws : ∀ known, Lowering.Draws names known value fun more operand =>
      Known more operand.value) :
    (Fragment.ofValue line value).Draws names := by
  refine ofLoad fun known => ?_
  rw [← bind_pure_comp]
  refine .bind (draws known) fun more operand _ isKnown => .pure ?_
  rintro other ⟨⟩
  exact isKnown

end Fragment.Draws

theorem Fetches.ofValue {known : Locals} {line : Nat} {value : Lower Operand}
    {shape : List IR.Instruction → Prop}
    (fetches : Fetches names known value fun more code operand =>
      Known more operand.value ∧ shape code) :
    Fetches names known (Fragment.ofValue line value).load fun more code found =>
      (∀ operand ∈ found, Known more operand.value) ∧ shape code := by
  unfold Fragment.ofValue Fragment.ofLoad
  rw [← bind_pure_comp]
  refine .bind fetches fun more code operand _ holds => .pure ⟨?_, by simpa using holds.2⟩
  rintro _ ⟨⟩
  exact holds.1

/-! ## What follows code -/

namespace DrawsAfter

variable {α β : Type} {names : List String} {known : Locals} {before : List IR.Instruction}

theorem of_draws {lowering : Lower α} {result : Locals → α → Prop}
    (draws : Draws names known lowering result) :
    DrawsAfter names known before lowering fun more _ => result more :=
  of_fetches draws

/-- An operation that the code before justifies comes first. -/
theorem compute {first : Emit α} {operation : α → IR.Operation} {next : IR.Value → Lower β}
    {shape : Locals → List IR.Instruction → β → Prop} (codeless : Codeless first)
    (operands : ∀ value, ∀ operand ∈ (operation value).operands, Known known operand)
    (justified : ∀ value, Justified before (operation value))
    (continues : ∀ more value name, known ⊆ more →
      Known more (.result name (operation value).resultType) →
      DrawsAfter names more (before ++ [⟨some name, operation value⟩])
        (next (.result name (operation value).resultType)) shape) : DrawsAfter names known before
      (Lower.emit (first >>= fun value => Emit.compute (operation value)) >>= next) shape := by
  intro bench value after binds outcome
  obtain ⟨_, _, ⟨⟩, outcome⟩ := bind_eq_ok outcome
  obtain ⟨computes, supplied⟩ :=
    computed (first bench.frame.draft).2 (operands (first bench.frame.draft).1)
  have grows := (codeless bench.frame.draft binds.valid).trans computes binds.valid
  obtain ⟨later, growsLater, suppliedLater, guardedLater, binds₂, holdsLater⟩ :=
    continues _ (first bench.frame.draft).1 (.temporary (first bench.frame.draft).2.temporaries)
      (Locals.subset_append _ _) (List.mem_append_right _ (by simp [results])) _ value after
      (binds.emit grows) outcome
  rw [Locals.append_assoc, ← IR.results_append] at binds₂ holdsLater
  rw [List.append_assoc before] at guardedLater holdsLater
  exact ⟨_, grows.trans growsLater binds.valid, supplied.append suppliedLater,
    fun guarded => guardedLater (guarded.snoc (justified _)), binds₂, holdsLater⟩

end DrawsAfter

variable {β : Type}

private theorem emit_bind {α : Type} (first : Emit α) (next : α → Emit β) :
    Lower.emit (first >>= next) = Lower.emit first >>= fun value => Lower.emit (next value) := rfl

theorem emit_bind_bind {α γ : Type} (first : Emit α) (next : α → Emit β) (last : β → Lower γ) :
    Lower.emit (first >>= next) >>= last =
      Lower.emit first >>= fun value => Lower.emit (next value) >>= last := rfl

/-- Operands are stored in a new elements block that has room for them. -/
theorem DrawsAfter.storeElements {known : Locals} {before header : List IR.Instruction}
    {next : Unit → Lower β} {result : Locals → β → Prop} {block : IR.Value} {size index : Nat}
    (element : Ty) {operands : List Operand} (builds : BuildsHeader (.int64 size) block header)
    (stands : header <:+: before) (fits : index + operands.length ≤ size)
    (knownBlock : Known known block) (isKnown : ∀ operand ∈ operands, Known known operand.value)
    (continues : ∀ more, known ⊆ more → Draws names more (next ()) result) :
    DrawsAfter names known before
      (Lower.emit (storeElements block element index operands) >>= next)
        fun more _ => result more := by
  induction operands generalizing known before index with
  | nil => exact .of_draws (continues known (Locals.subset_refl known))
  | cons operand rest ih =>
    rw [List.length_cons] at fits
    rw [Lowering.storeElements, emit_bind_bind]
    refine .compute (.slotLayout _) ?_ ?_ fun known₁ slot address sub₁ addressKnown => ?_
    · intro slot
      simpa [IR.Operation.operands] using ⟨knownBlock, trivial⟩
    · intro slot
      exact .fresh builds (by omega) rfl stands
    have operandKnown := (isKnown operand List.mem_cons_self).mono sub₁
    rw [emit_bind_bind]
    refine .bind (.emit (Emits.store operandKnown addressKnown)) fun known₂ stored _ sub₂ _ => ?_
    have to₂ := Locals.subset_trans sub₁ sub₂
    refine ih ?_ (by omega) (knownBlock.mono to₂) ?_ ?_
    · exact stands.trans ((List.prefix_append _ _).trans (List.prefix_append _ _)).isInfix
    · exact fun other member => (isKnown other (List.mem_cons_of_mem _ member)).mono to₂
    · exact fun more subset => continues more (Locals.subset_trans to₂ subset)

/-! ## Emissions of expressions -/

namespace Emits

variable {known : Locals}

theorem mapM {α β : Type} {emission : α → Emit β}
    (each : ∀ known value, Emits known (emission value) fun _ _ => True) (values : List α) :
    Emits known (values.mapM emission) fun _ _ => True := by
  rw [← List.mapM'_eq_mapM]
  induction values generalizing known with
  | nil => exact .pure trivial
  | cons value rest ih =>
    exact .bind (each known value) fun _ _ _ _ =>
      .bind ih fun _ _ _ _ => .pure trivial

theorem declareSignature (function : Signature) :
    Emits known (declareSignature function) fun _ _ => True := by
  refine .bind (mapM (fun _ type => slotLayout type) _) fun _ parameters _ _ => ?_
  cases same : function.result with
  | none => exact .bind (.pure trivial) fun _ _ _ (_ : True) => declare rfl
  | some type => exact .bind (slotLayout type) fun _ _ _ _ => declare rfl

theorem callSignature (function : Signature) {arguments : List IR.Value}
    (isKnown : ∀ value ∈ arguments, Known known value) :
    Emits known (callSignature function arguments) fun more found =>
      ∀ operand ∈ found, Known more operand.value := by
  refine .bind (declareSignature function) fun known₁ index sub₁ _ => ?_
  refine .bind (callee index) fun known₂ callee sub₂ _ => ?_
  have later := Locals.subset_trans sub₁ sub₂
  refine .bind (call fun value member => (isKnown value member).mono later)
    fun known₃ result _ resultKnown => .pure ?_
  intro operand member
  obtain ⟨type, _, rfl⟩ := Option.map_eq_some_iff.mp member
  exact resultKnown

theorem printedOperand (isKnown : Known known operand.value) :
    Emits known (printedOperand operand) fun more printed =>
      ∀ value ∈ printed.2, Known more value := by
  unfold Lowering.printedOperand
  split
  · refine .bind (convert _ _ isKnown) fun _ _ _ valueKnown => .pure ?_
    simpa using valueKnown
  · refine .pure ?_
    simpa using isKnown
  · refine .bind (elementsOf .char isKnown) fun known₁ block sub₁ blockKnown => ?_
    refine .bind (sizeOfList .char (isKnown.mono sub₁)) fun known₂ size sub₂ sizeKnown => .pure ?_
    simpa using ⟨blockKnown.mono sub₂, sizeKnown⟩
  · refine .bind (constantText _) fun _ _ _ textKnown => .pure ?_
    simpa using textKnown

theorem integerParts {left right : IR.Value} {operator : IR.Arithmetic} (total : operator ≠ .fdiv)
    (knownLeft : Known known left) (knownRight : Known known right) :
    Emits known (integerParts operator left right) Known := by
  refine .bind (convert _ _ knownLeft) fun known₁ leftPart sub₁ leftKnown => ?_
  refine .bind (convert _ _ (knownRight.mono sub₁)) fun known₂ rightPart sub₂ rightKnown => ?_
  refine .bind (arithmetic total (leftKnown.mono sub₂) rightKnown) fun _ _ _ resultKnown => ?_
  exact convert _ _ resultKnown

end Emits

/-! ## Fragments -/

namespace Draws

variable {names : List String} {known : Locals}

theorem identifier (line : Nat) {name : String} (member : name ∈ names) :
    (identifier line name).Draws names := by
  constructor
  · intro known
    refine .bind (binding line member) fun known₁ found _ foundKnown => ?_
    split
    · refine .pure ?_
      rintro operand ⟨⟩
      exact foundKnown
    · refine .bind (.emit (.valueLayout _)) fun known₂ type sub₂ _ => ?_
      refine .bind (.emit (.load type (foundKnown.mono sub₂))) fun _ value _ valueKnown => .pure ?_
      rintro operand ⟨⟩
      exact valueKnown
  · intro known
    exact .bind (binding line member) fun _ _ _ foundKnown => .pure foundKnown

theorem indexValue (draws : fragment.Draws names) :
    Draws names known (indexValue fragment) Known := by
  refine .bind (draws.value known) fun known₁ operand _ operandKnown => ?_
  refine .bind (convert? .int operandKnown) fun known₂ found _ foundKnown => ?_
  cases found with
  | none => exact .fail _ _
  | some index => exact .pure (foundKnown index rfl)

theorem listValue (draws : fragment.Draws names) :
    Draws names known (listValue fragment) fun more listed => Known more listed.1 := by
  refine .bind (draws.value known) fun known₁ operand _ operandKnown => ?_
  split
  · exact .pure operandKnown
  · exact .fail _ _

theorem stringLiteral (line : Nat) (content : String) :
    (stringLiteral line content).Draws names := by
  refine .ofValue fun known => ?_
  refine .bind (.emit (.buildList .char (.constant rfl))) fun known₁ built _ builtKnown => ?_
  dsimp only
  split
  · refine .bind (.emit (.constantText content)) fun known₂ source sub₂ sourceKnown => ?_
    refine .bind (.emit (.copyValues .i8 (builtKnown.2.mono sub₂) sourceKnown (.constant rfl)))
      fun known₃ _ sub₃ _ => ?_
    exact recordFresh _ ((builtKnown.1.mono sub₂).mono sub₃)
  · exact recordFresh _ builtKnown.1

theorem elementValues (line position : Nat) (earlier : Option Ty) {elements : List Fragment}
    (draws : ∀ element ∈ elements, element.Draws names) :
    Draws names known (elementValues line position earlier elements) fun more operands =>
      ∀ operand ∈ operands, Known more operand.value := by
  induction elements generalizing known position earlier with
  | nil => exact .pure (by simp)
  | cons element rest ih =>
    refine .bind ((draws element List.mem_cons_self).value known)
      fun known₁ operand _ operandKnown => .guard ?_
    refine .bind (ih (position + 1) (some operand.type) fun other member =>
      draws other (List.mem_cons_of_mem _ member)) fun known₂ operands sub₂ operandsKnown => ?_
    refine .pure fun other member => ?_
    rcases List.mem_cons.mp member with rfl | later
    · exact operandKnown.mono sub₂
    · exact operandsKnown other later

theorem listLiteral (line : Nat) {elements : List Fragment}
    (draws : ∀ element ∈ elements, element.Draws names) :
    (listLiteral line elements).Draws names := by
  refine .ofValue fun known => ?_
  refine .bind (elementValues line 1 none draws) fun known₁ operands _ operandsKnown => ?_
  apply DrawsAfter.fetches
  refine .bind (.emit (.buildList _ (.constant rfl))) fun known₂ header built sub₂ builds => ?_
  obtain ⟨builtKnown, buildsHeader⟩ := builds
  refine .storeElements _ buildsHeader (List.suffix_append _ _).isInfix (by simp) builtKnown.2 ?_ ?_
  · exact fun operand member => (operandsKnown operand member).mono sub₂
  · exact fun known₃ sub₃ => recordFresh _ (builtKnown.1.mono sub₃)

variable {list : Fragment} {target source : Operand} {arguments : List Fragment}
  {left right : IR.Value}

theorem elementPlace (line : Nat) {index : Fragment} (drawsList : list.Draws names)
    (drawsIndex : index.Draws names) :
    Fetches names known (elementPlace line list index) fun more code found =>
      Known more found.1 ∧ Locates line code := by
  refine .bind (listValue drawsList) fun known₁ lists listed _ listedKnown => DrawsAfter.fetches ?_
  refine .bind (.emit (.sizeOfList _ listedKnown)) fun known₂ read size sub₂ readsSize => ?_
  obtain ⟨sizeKnown, reads⟩ := readsSize
  refine .bind (indexValue drawsIndex) fun known₃ inner given sub₃ givenKnown => ?_
  have sizeLater := sizeKnown.mono sub₃
  refine .bind (check .indexCheck line (by simpa using ⟨givenKnown, sizeLater⟩))
    fun known₄ check _ sub₄ checks => ?_
  refine .bind (.emit (.normaliseIndex (givenKnown.mono sub₄) (sizeLater.mono sub₄)))
    fun known₅ fix position sub₅ normalisesGiven => ?_
  obtain ⟨positionKnown, normalises⟩ := normalisesGiven
  have listedLater := (((listedKnown.mono sub₂).mono sub₃).mono sub₄).mono sub₅
  refine .bind (.emit (.elementsOf _ listedLater)) fun known₆ block base sub₆ readsBase => ?_
  obtain ⟨baseKnown, readsBlock⟩ := readsBase
  refine .compute (.slotLayout _) ?_ ?_ fun _ slot address _ addressKnown => .of_fetches (.pure ?_)
  · intro slot
    simpa [IR.Operation.operands] using ⟨baseKnown, positionKnown.mono sub₆⟩
  · intro slot
    exact .element reads checks.checks normalises readsBlock (List.suffix_refl _)
  · refine ⟨addressKnown, _, _, _, _, _, read, inner, check, fix, block, slot, address, reads,
      checks,
      normalises, readsBlock, ?_⟩
    simp

theorem elementOf (line : Nat) {index : Fragment} (drawsList : list.Draws names)
    (drawsIndex : index.Draws names) : (elementOf line list index).Draws names := by
  have places (known : Locals) : Draws names known (Lowering.elementPlace line list index)
      fun more found => Known more found.1 :=
    (elementPlace line drawsList drawsIndex).weaken fun _ _ _ holds => holds.1
  constructor
  · intro known
    refine .bind (places known) fun known₁ found _ addressKnown => ?_
    obtain ⟨address, element⟩ := found
    dsimp only
    split
    · refine .bind (.emit (.buildList .char (.constant rfl))) fun known₂ built sub₂ builtKnown => ?_
      have stores :
          Emits known₂ (do Emit.store (← Emit.load .i8 address) built.2) fun _ _ => True :=
        .bind (.load .i8 (addressKnown.mono sub₂)) fun _ _ sub₃ loadedKnown =>
          .store loadedKnown (builtKnown.2.mono sub₃)
      refine .bind (.emit stores) fun known₃ _ sub₃ _ => ?_
      refine .bind (recordFresh _ (builtKnown.1.mono sub₃)) fun _ operand _ operandKnown => .pure ?_
      rintro other ⟨⟩
      exact operandKnown
    · refine .bind (.emit (.slotLayout element)) fun known₂ slot sub₂ _ => ?_
      refine .bind (.emit (.load slot (addressKnown.mono sub₂)))
        fun _ value _ valueKnown => .pure ?_
      rintro operand ⟨⟩
      exact valueKnown
  · intro known
    exact .bind (places known) fun _ _ _ addressKnown => .pure addressKnown

theorem sliceBound {absent : IR.Value} (knownAbsent : Known known absent) {bound : Option Fragment}
    (draws : ∀ fragment ∈ bound, fragment.Draws names) :
    Draws names known (sliceBound absent bound) Known := by
  cases bound with
  | none => exact .pure knownAbsent
  | some fragment => exact indexValue (draws fragment rfl)

theorem slice (line : Nat) {start stop : Option Fragment} (drawsList : list.Draws names)
    (drawsStart : ∀ fragment ∈ start, fragment.Draws names)
    (drawsStop : ∀ fragment ∈ stop, fragment.Draws names) :
    Fetches names known (Lowering.sliceOf line list start stop).load fun more code found =>
      (∀ operand ∈ found, Known more operand.value) ∧ Slices line code := by
  refine .ofValue ?_
  refine .bind (listValue drawsList) fun known₁ lists listed _ listedKnown => DrawsAfter.fetches ?_
  refine .bind (.emit (.sizeOfList _ listedKnown)) fun known₂ read size sub₂ readsSize => ?_
  obtain ⟨sizeKnown, reads⟩ := readsSize
  refine .bind (sliceBound (.constant rfl) drawsStart) fun known₃ inner first sub₃ firstKnown => ?_
  refine .bind (sliceBound (sizeKnown.mono sub₃) drawsStop)
    fun known₄ more last sub₄ lastKnown => ?_
  have from₂ := Locals.subset_trans sub₃ sub₄
  refine .bind (check .sliceCheck line
    (by simpa using ⟨firstKnown.mono sub₄, lastKnown, sizeKnown.mono from₂⟩))
    fun known₅ check _ sub₅ checks => ?_
  have from₃ := Locals.subset_trans sub₄ sub₅
  have sizeLater := (sizeKnown.mono from₂).mono sub₅
  refine .bind (.emit (.normaliseIndex (firstKnown.mono from₃) sizeLater))
    fun known₆ fixStart start sub₆ normalisesFirst => ?_
  obtain ⟨startKnown, normalisesStart⟩ := normalisesFirst
  refine .bind (.emit (.normaliseIndex ((lastKnown.mono sub₅).mono sub₆)
    (sizeLater.mono sub₆))) fun known₇ fixStop stop sub₇ normalisesLast => ?_
  obtain ⟨stopKnown, normalisesStop⟩ := normalisesLast
  refine .bind (.emit (.compute (by trivial) (by
    simpa [IR.Operation.operands] using ⟨stopKnown, startKnown.mono sub₇⟩)))
    fun known₈ _ _ sub₈ computes => ?_
  obtain ⟨countKnown, count, rfl, rfl⟩ := computes
  refine .bind (.emit (.buildList _ countKnown)) fun known₉ header built sub₉ builds => ?_
  obtain ⟨builtKnown, buildsHeader⟩ := builds
  have from₆ := Locals.subset_trans sub₇ (Locals.subset_trans sub₈ sub₉)
  have listedLater := listedKnown.mono (Locals.subset_trans sub₂ (Locals.subset_trans from₂
    (Locals.subset_trans sub₅ (Locals.subset_trans sub₆ from₆))))
  obtain ⟨slice, storage⟩ := built
  dsimp only
  rw [emit_bind_bind]
  refine .bind (.emit (.elementsOf _ listedLater)) fun known₁₀ block base sub₁₀ readsBase => ?_
  obtain ⟨baseKnown, readsBlock⟩ := readsBase
  refine .compute (.slotLayout _) ?_ ?_ fun known₁₁ slot source sub₁₁ sourceKnown => .of_fetches ?_
  · intro slot
    simpa [IR.Operation.operands] using
      ⟨baseKnown, (startKnown.mono from₆).mono sub₁₀⟩
  · intro slot
    have stands : read ++ (inner ++ more) ++ check ++ fixStart ++ fixStop ++
        [⟨some count, .arithmetic .sub stop start⟩] ++ header ++ block <:+
        [] ++ read ++ inner ++ more ++ check ++ fixStart ++ fixStop ++
        [⟨some count, .arithmetic .sub stop start⟩] ++ header ++ block := by
      simp
    exact .slice reads checks.checks normalisesStart normalisesStop buildsHeader readsBlock stands
  have from₉ := Locals.subset_trans sub₁₀ sub₁₁
  have blockLater := builtKnown.2.mono from₉
  have countLater := (countKnown.mono sub₉).mono from₉
  have copies : Writes known₁₁ (do
      Emit.copyValues storage (.result source (.pointer slot)) (← slotLayout listed.2)
        (.result count stop.type)) fun _ code _ =>
      Copies storage (.result source (.pointer slot)) (.result count stop.type) code :=
    .after (.slotLayout _) fun layout => .copyValues layout blockLater sourceKnown countLater
  refine .bind (.emit copies) fun known₁₂ copy _ sub₁₂ copied => ?_
  have listKnown := (builtKnown.1.mono from₉).mono sub₁₂
  refine Fetches.weaken (recordFresh _ listKnown) fun _ later _ isKnown => ⟨isKnown, ?_⟩
  exact ⟨_, _, _, _, _, _, _, _, read, inner ++ more, check, fixStart, fixStop, count, header,
    block, slot, source, copy, reads, checks, normalisesStart, normalisesStop, buildsHeader,
    readsBlock, copied, lists, later, by simp⟩

theorem sliceOf (line : Nat) {start stop : Option Fragment} (drawsList : list.Draws names)
    (drawsStart : ∀ fragment ∈ start, fragment.Draws names)
    (drawsStop : ∀ fragment ∈ stop, fragment.Draws names) :
    (sliceOf line list start stop).Draws names :=
  .ofLoad fun _ => (slice line drawsList drawsStart drawsStop).weaken fun _ _ _ holds => holds.1

theorem storeFields (entity : Entity) (record : IR.Ty) (index : Nat)
    {given : List (Option Fragment)} (fields : List (String × Ty))
    (knownAddress : Known known address)
    (draws : ∀ fragment, some fragment ∈ given → fragment.Draws names) :
    Draws names known (storeFields entity address record index given fields) fun _ _ => True := by
  induction given generalizing known index fields with
  | nil => exact .pure trivial
  | cons first rest ih =>
    cases fields with
    | nil => exact .pure trivial
    | cons field fields =>
      obtain ⟨name, type⟩ := field
      have later : ∀ more, known ⊆ more →
          Draws names more (storeFields entity address record (index + 1) rest fields)
            fun _ _ => True := fun more subset =>
        ih (index + 1) fields (knownAddress.mono subset)
          fun fragment member => draws fragment (List.mem_cons_of_mem _ member)
      cases first with
      | none => exact later known (Locals.subset_refl _)
      | some fragment =>
        rw [Lowering.storeFields]
        refine .bind ((draws fragment List.mem_cons_self).value known)
          fun known₁ operand sub₁ operandKnown => ?_
        refine .bind (convert? type operandKnown) fun known₂ found sub₂ foundKnown => ?_
        have operandLater := operandKnown.mono sub₂
        cases found with
        | none =>
          have fails : Draws names known₂ (Lower.fail fragment.line (.fieldValueType name
            entity.header.symbol (moduleText entity.header.name)) : Lower PUnit)
            fun _ _ => False := fail _ _
          exact .bind fails fun _ _ _ impossible => impossible.elim
        | some converted =>
          have to₂ := Locals.subset_trans sub₁ sub₂
          have stores : ∀ known₃ stored, known₂ ⊆ known₃ → Known known₃ stored →
              Draws names known₃ (do
                Lower.emit do Emit.store stored (← Emit.fieldPointer address record index)
                storeFields entity address record (index + 1) rest fields)
                fun _ _ => True := by
            intro known₃ stored sub₃ storedKnown
            have to₃ := Locals.subset_trans to₂ sub₃
            have pointed : Emits known₃ (do
                Emit.store stored (← Emit.fieldPointer address record index))
                fun _ _ => True :=
              .bind (.fieldPointer record index (knownAddress.mono to₃))
                fun _ _ sub pointerKnown => .store (storedKnown.mono sub) pointerKnown
            exact .bind (.emit pointed) fun known₄ _ sub₄ _ =>
              later known₄ (Locals.subset_trans to₃ sub₄)
          dsimp only
          split
          · exact .bind (.emit (.copyOf type operandLater)) fun known₃ copy sub₃ copyKnown =>
              stores known₃ copy sub₃ copyKnown
          · exact stores known₂ _ (Locals.subset_refl _) (foundKnown converted rfl)

theorem entityLiteral (line : Nat) (name symbol : String) {given : List (Option Fragment)}
    (draws : ∀ fragment, some fragment ∈ given → fragment.Draws names) :
    (entityLiteral line name symbol given).Draws names := by
  refine .ofValue fun known => .bind (entity? name) fun known₁ found _ _ => ?_
  cases found with
  | none => exact .fail _ _
  | some entity =>
    refine .bind (.emit (.valueLayout _)) fun known₂ record _ _ => ?_
    refine .bind (.emit (.buildEntity entity)) fun known₃ address _ addressKnown => ?_
    refine .bind (storeFields entity record 0 _ addressKnown draws)
      fun known₄ _ sub₄ _ => ?_
    exact recordFresh _ (addressKnown.mono sub₄)

theorem fieldPlace (line : Nat) (entity : Entity) (name : String) (isKnown : Known known address) :
    Draws names known (fieldPlace line entity address name)
      fun more found => Known more found.1 := by
  unfold Lowering.fieldPlace
  split
  · exact .fail _ _
  · refine .bind (.emit (.valueLayout _)) fun known₁ record sub₁ _ => ?_
    refine .bind (.emit (.fieldPointer record _ (isKnown.mono sub₁))) fun _ _ _ pointerKnown => ?_
    exact .pure pointerKnown

theorem fieldOf (line : Nat) {target : Fragment} (name : String) (draws : target.Draws names) :
    (fieldOf line target name).Draws names := by
  constructor
  · intro known
    refine .bind (draws.value known) fun known₁ operand _ operandKnown => ?_
    split
    · refine .guard (.bind (.emit (.sizeOfList _ operandKnown)) fun known₂ size _ sizeKnown => ?_)
      refine .bind (.emit (.convert _ _ sizeKnown)) fun _ value _ valueKnown => .pure ?_
      rintro other ⟨⟩
      exact valueKnown
    · refine .bind (fieldPlace line _ name operandKnown) fun known₂ found _ foundKnown => ?_
      refine .bind (.emit (.slotLayout _)) fun known₃ slot sub₃ _ => ?_
      refine .bind (.emit (.load slot (foundKnown.mono sub₃))) fun _ value _ valueKnown => .pure ?_
      rintro other ⟨⟩
      exact valueKnown
    · exact .fail _ _
  · intro known
    refine .bind (draws.value known) fun known₁ operand _ operandKnown => ?_
    split
    · exact .guard (.fail _ _)
    · exact .bind (fieldPlace line _ name operandKnown) fun _ _ _ foundKnown => .pure foundKnown
    · exact .fail _ _

theorem assignAggregate (line : Nat) (knownTarget : Known known target.value)
    (knownSource : Known known source.value) :
    Draws names known (assignAggregate line target source) fun more operand =>
      Known more operand.value := by
  refine .guard (.guard ?_)
  split
  · refine .bind (.emit (.overwrite _ knownTarget knownSource)) fun _ _ sub _ => .pure ?_
    exact knownTarget.mono sub
  · refine .bind (.emit (.copyOf _ knownSource)) fun known₁ copy sub₁ copyKnown => ?_
    refine .bind (.emit (.store copyKnown (knownTarget.mono sub₁))) fun _ _ sub₂ _ => .pure ?_
    exact copyKnown.mono sub₂

theorem assignCharacter (line : Nat) (knownTarget : Known known target.value)
    (knownSource : Known known source.value) :
    Draws names known (assignCharacter line target source) fun more operand =>
      Known more operand.value := by
  have stores : Emits known (do
      let character ← Emit.load .i8 (← Emit.elementsOf source.value .char)
      Emit.store character target.value) fun _ _ => True := by
    refine .bind (.elementsOf .char knownSource) fun known₁ block sub₁ blockKnown => ?_
    refine .bind (.load .i8 blockKnown) fun known₂ character sub₂ characterKnown => ?_
    exact .store characterKnown ((knownTarget.mono sub₁).mono sub₂)
  exact .guard (.bind (.emit stores) fun _ _ sub _ => .pure (knownSource.mono sub))

theorem assignPrimitive (line : Nat) (knownTarget : Known known target.value)
    (knownSource : Known known source.value) :
    Draws names known (assignPrimitive line target source) fun more operand =>
      Known more operand.value := by
  refine .bind (convert? _ knownSource) fun known₁ found sub₁ foundKnown => ?_
  cases found with
  | none => exact .fail _ _
  | some converted =>
    have convertedKnown := foundKnown converted rfl
    refine .bind (.emit (.store convertedKnown (knownTarget.mono sub₁))) fun _ _ sub₂ _ => ?_
    exact .pure (convertedKnown.mono sub₂)

theorem assignment (line : Nat) {target source : Fragment} (drawsTarget : target.Draws names)
    (drawsSource : source.Draws names) : (assignment line target source).Draws names := by
  refine .ofValue fun known => ?_
  refine .bind (drawsTarget.place known) fun known₁ place _ placeKnown => ?_
  refine .bind (drawsSource.value known₁) fun known₂ operand sub₂ operandKnown => ?_
  have placeLater := placeKnown.mono sub₂
  split
  · exact assignAggregate line placeLater operandKnown
  · split
    · exact assignCharacter line placeLater operandKnown
    · exact assignPrimitive line placeLater operandKnown

section

variable (draws : ∀ argument ∈ arguments, argument.Draws names)

include draws

theorem argumentValues (function : String) (position : Nat) (types : List Ty) :
    Draws names known (argumentValues function position arguments types) fun more values =>
      ∀ value ∈ values, Known more value := by
  induction arguments generalizing known position types with
  | nil => exact .pure (by simp)
  | cons argument rest ih =>
    cases types with
    | nil => exact .pure (by simp)
    | cons type types =>
      refine .bind ((draws argument List.mem_cons_self).value known)
        fun known₁ operand _ operandKnown => ?_
      refine .bind (convert? type operandKnown) fun known₂ found _ foundKnown => ?_
      cases found with
      | none => exact .fail _ _
      | some converted =>
        refine .bind (ih (fun other member => draws other (List.mem_cons_of_mem _ member))
          (position + 1) types) fun known₃ values sub₃ valuesKnown => ?_
        refine .pure fun value member => ?_
        rcases List.mem_cons.mp member with rfl | later
        · exact (foundKnown converted rfl).mono sub₃
        · exact valuesKnown value later

theorem printedArguments : Draws names known (printedArguments arguments) fun more printed =>
      ∀ value ∈ printed.2, Known more value := by
  induction arguments generalizing known with
  | nil => exact .pure (by simp)
  | cons argument rest ih =>
    refine .bind ((draws argument List.mem_cons_self).value known)
      fun known₁ operand _ operandKnown => ?_
    refine .bind (widen operandKnown) fun known₂ real _ realKnown => ?_
    refine .bind (.emit (.printedOperand realKnown)) fun known₃ printed _ printedKnown => ?_
    refine .bind (ih fun other member =>
      draws other (List.mem_cons_of_mem _ member)) fun known₄ later sub₄ laterKnown => ?_
    refine .pure fun value member => ?_
    rcases List.mem_append.mp member with first | second
    · exact (printedKnown value first).mono sub₄
    · exact laterKnown value second

theorem printCall (function : Signature) :
    Draws names known (printCall function arguments) fun _ _ => True := by
  refine .bind (printedArguments draws) fun known₁ printed _ printedKnown => .emit ?_
  refine .bind (.constantText _) fun known₂ format sub₂ formatKnown => ?_
  refine .bind (.declare rfl) fun known₃ index sub₃ _ => ?_
  refine .bind (.callee index) fun known₄ callee sub₄ _ => .performCall fun value member => ?_
  have from₂ := Locals.subset_trans sub₃ sub₄
  rcases List.mem_cons.mp member with rfl | later
  · exact formatKnown.mono from₂
  · exact (printedKnown value later).mono (Locals.subset_trans sub₂ from₂)

theorem call (line : Nat) (callee : String) : (call line callee arguments).Draws names := by
  refine .ofLoad fun known => .bind .get fun known₁ bench _ _ => ?_
  refine .bind viewpoint fun known₂ view _ _ => .bind (ask _) fun known₃ found _ _ => ?_
  split
  · exact .fail _ _
  · next function _ =>
    dsimp only
    split
    · exact .bind (printCall draws function) fun _ _ _ _ => .pure (by simp)
    · refine .guard (.guard ?_)
      refine .bind (argumentValues draws _ _ _) fun known₄ values _ valuesKnown => ?_
      exact .emit (.callSignature function valuesKnown)

end

theorem concatenation (element : Ty) (knownLeft : Known known left)
    (knownRight : Known known right) :
    Draws names known (Lower.emit (concatenation left right element)) Known := by
  apply DrawsAfter.fetches
  unfold Lowering.concatenation
  rw [emit_bind]
  refine .bind (.emit (Emits.slotLayout element)) fun known₁ layout slot sub₁ _ => ?_
  rw [emit_bind]
  refine .bind (.emit (Emits.sizeOfList element (knownLeft.mono sub₁)))
    fun known₂ first leftSize sub₂ leftSizeKnown => ?_
  have to₂ := Locals.subset_trans sub₁ sub₂
  rw [emit_bind]
  refine .bind (.emit (Emits.sizeOfList element (knownRight.mono to₂)))
    fun known₃ second rightSize sub₃ rightSizeKnown => ?_
  rw [emit_bind]
  refine .bind (.emit (.compute (by trivial) (by
    simpa [IR.Operation.operands] using ⟨leftSizeKnown.mono sub₃, rightSizeKnown⟩)))
    fun known₄ _ _ sub₄ computes => ?_
  obtain ⟨sumKnown, sum, rfl, rfl⟩ := computes
  rw [emit_bind]
  refine .bind (.emit (.buildList element sumKnown)) fun known₅ header built sub₅ builds => ?_
  obtain ⟨list, block⟩ := built
  obtain ⟨builtKnown, buildsHeader⟩ := builds
  have from₃ := Locals.subset_trans sub₄ sub₅
  have from₂ := Locals.subset_trans sub₃ from₃
  have to₅ := Locals.subset_trans to₂ from₂
  dsimp only
  rw [emit_bind]
  refine .bind (.emit (Emits.elementsOf element (knownLeft.mono to₅)))
    fun known₆ fetch leftBlock sub₆ leftBlockKnown => ?_
  rw [emit_bind]
  refine .bind (.emit (Emits.copyValues slot (builtKnown.2.mono sub₆) leftBlockKnown
    ((leftSizeKnown.mono from₂).mono sub₆))) fun known₇ copy _ sub₇ _ => ?_
  have from₅ := Locals.subset_trans sub₆ sub₇
  rw [emit_bind]
  refine .compute (.slotLayout _) ?_ ?_ fun known₈ _ rest sub₈ restKnown => .of_draws (.emit ?_)
  · intro slot
    simpa [IR.Operation.operands] using ⟨builtKnown.2.mono from₅,
      (leftSizeKnown.mono from₂).mono from₅⟩
  · intro slot
    have stands : [⟨some sum, .arithmetic .add leftSize rightSize⟩] ++ header <:+:
        (layout ++ first ++ second) ++ ([⟨some sum, .arithmetic .add leftSize rightSize⟩] ++ header)
          ++ (fetch ++ copy) := List.infix_append _ _ _
    exact .behind buildsHeader (by simpa using stands)
  have from₅' := Locals.subset_trans from₅ sub₈
  refine .bind (.elementsOf element ((knownRight.mono to₅).mono from₅'))
    fun known₉ rightBlock sub₉ rightBlockKnown => ?_
  have to₉ := Locals.subset_trans from₅' sub₉
  refine .bind (.copyValues slot (restKnown.mono sub₉) rightBlockKnown
    ((rightSizeKnown.mono from₃).mono to₉)) fun known₁₀ _ sub₁₀ _ => ?_
  exact .pure ((builtKnown.1.mono to₉).mono sub₁₀)

theorem division (line : Nat) (knownLeft : Known known left) (knownRight : Known known right) :
    Fetches names known (Lowering.realBinary line .divide left right) fun more code operand =>
      Known more operand.value ∧ Divides line left right code := by
  apply DrawsAfter.fetches
  refine .bind (check .divisorCheck line (by simpa using knownRight))
    fun more check _ sub checks => ?_
  change DrawsAfter names more ([] ++ check) (Lower.emit (Pure.pure () >>= fun _ =>
    Emit.compute (.arithmetic .fdiv left right)) >>= fun value =>
      Pure.pure (⟨value, .real, false⟩ : Operand)) _
  refine .compute (.pure ()) ?_ ?_ fun _ _ quotient _ valueKnown => .of_fetches (.pure ?_)
  · intro _
    simpa [IR.Operation.operands] using ⟨knownLeft.mono sub, knownRight.mono sub⟩
  · exact fun _ => ⟨check, checks.checks, List.suffix_refl _⟩
  · exact ⟨valueKnown, check, quotient, checks, by simp⟩

theorem realBinary (line : Nat) (operator : Operator) (knownLeft : Known known left)
    (knownRight : Known known right) :
    Draws names known (realBinary line operator left right) fun more operand =>
      Known more operand.value := by
  unfold Lowering.realBinary
  split
  · next predicate _ =>
    have compares : Emits known (Emit.compute (.compareReal predicate left right)) Known :=
      .compute trivial (by simpa [IR.Operation.operands] using ⟨knownLeft, knownRight⟩)
    exact .bind (.emit compares) fun _ _ _ valueKnown => .pure valueKnown
  split
  · next bitwise found =>
    have total : bitwise ≠ .fdiv := by
      rintro rfl
      cases operator <;> cases found
    exact .bind (.emit (.integerParts total knownLeft knownRight)) fun _ _ _ valueKnown =>
      .pure valueKnown
  split
  · next arithmetic found =>
    split
    · next isDivision =>
      subst isDivision
      cases found
      exact (division line knownLeft knownRight).weaken fun _ _ _ holds => holds.1
    · next other =>
      have total : arithmetic ≠ .fdiv := by
        rintro rfl
        cases operator <;> first | exact other rfl | cases found
      exact .bind (.emit (.arithmetic total knownLeft knownRight)) fun _ _ _ valueKnown =>
        .pure valueKnown
  split
  · have operandsKnown : ∀ value ∈ [left, right], Known known value := by
      simpa using ⟨knownLeft, knownRight⟩
    refine .bind (.emit (.callSignature _ operandsKnown)) fun known₁ found _ foundKnown => ?_
    cases found with
    | none => exact .fail _ _
    | some result => exact .pure (foundKnown result rfl)
  · exact .fail _ _

theorem booleanOperation_operands {operator : Operator} {operation : IR.Operation}
    (found : booleanOperation? left right operator = some operation) :
    operation.operands = [left, right] ∧ Justified [] operation := by
  cases operator <;> cases found <;> exact ⟨rfl, trivial⟩

theorem binaryOperation {left right : Operand} (line : Nat) (operator : Operator)
    (knownLeft : Known known left.value) (knownRight : Known known right.value) :
    Draws names known (binaryOperation line operator left right) fun more operand =>
      Known more operand.value := by
  unfold Lowering.binaryOperation
  split
  · split
    · refine .guard (.guard ?_)
      exact .bind (concatenation _ knownLeft knownRight) fun _ _ _ listKnown =>
        recordFresh _ listKnown
    · exact .fail _ _
  split
  · split
    · next operation found =>
      have computes : Emits known (Emit.compute operation) Known := by
        refine .compute (booleanOperation_operands found).2 ?_
        rw [(booleanOperation_operands found).1]
        simpa using ⟨knownLeft, knownRight⟩
      exact .bind (.emit computes) fun _ _ _ valueKnown => .pure valueKnown
    · exact .fail _ _
  split
  · refine .bind (widen knownLeft) fun known₁ leftReal sub₁ leftKnown => ?_
    refine .bind (widen (knownRight.mono sub₁)) fun known₂ rightReal sub₂ rightKnown => ?_
    exact realBinary line operator (leftKnown.mono sub₂) rightKnown
  · exact .fail _ _

theorem binary (line : Nat) (operator : Operator) {left right : Fragment}
    (drawsLeft : left.Draws names)
    (drawsRight : right.Draws names) : (binary line operator left right).Draws names := by
  refine .ofValue fun known => ?_
  refine .bind (drawsLeft.value known) fun known₁ leftOperand _ leftKnown => ?_
  refine .bind (drawsRight.value known₁) fun known₂ rightOperand sub₂ rightKnown => ?_
  exact binaryOperation line operator (leftKnown.mono sub₂) rightKnown

theorem unaryOperation (line : Nat) (operator : Operator) (isKnown : Known known operand.value) :
    Draws names known (unaryOperation line operator operand) fun more result =>
      Known more result.value := by
  unfold Lowering.unaryOperation
  split
  · exact .guard (.bind (.emit (.arithmetic nofun isKnown (.constant rfl))) fun _ _ _ valueKnown =>
      .pure valueKnown)
  split
  · refine .bind (widen isKnown) fun known₁ real _ realKnown => ?_
    split
    · have negates : Emits known₁ (Emit.compute (.negate real.value)) Known :=
        .compute trivial (by simpa [IR.Operation.operands] using realKnown)
      exact .bind (.emit negates) fun _ _ _ valueKnown => .pure valueKnown
    · refine .bind (.emit (.convert _ _ realKnown)) fun known₂ part _ partKnown => ?_
      refine .bind (.emit (.arithmetic nofun partKnown (.constant rfl)))
        fun _ _ _ flippedKnown => ?_
      exact .bind (.emit (.convert _ _ flippedKnown)) fun _ _ _ valueKnown => .pure valueKnown
    · exact .fail _ _
  · exact .fail _ _

theorem unary (line : Nat) (operator : Operator) {operand : Fragment}
    (draws : operand.Draws names) :
    (unary line operator operand).Draws names :=
  .ofValue fun known => .bind (draws.value known) fun _ _ _ operandKnown =>
    unaryOperation line operator operandKnown

end Draws

mutual

/-- The code of an expression uses the addresses of the names it mentions and what it defines. -/
theorem draws_lower (expression : Source.Expr) (mentioned : expression.mentions ⊆ names) :
    (lower expression).Draws names := by
  cases expression with
  | boolean line value => exact .ofValue fun _ => .pure (.constant rfl)
  | number line value => exact .ofValue fun _ => .pure (.constant rfl)
  | string line value => exact Draws.stringLiteral line value
  | identifier line name => exact Draws.identifier line (mentioned List.mem_cons_self)
  | list line elements => exact Draws.listLiteral line (draws_lowerAll elements mentioned)
  | index line list index =>
    obtain ⟨ofList, ofIndex⟩ := List.append_subset.mp mentioned
    exact Draws.elementOf line (draws_lower list ofList) (draws_lower index ofIndex)
  | slice line list start stop =>
    obtain ⟨ofBounds, ofStop⟩ := List.append_subset.mp mentioned
    obtain ⟨ofList, ofStart⟩ := List.append_subset.mp ofBounds
    exact Draws.sliceOf line (draws_lower list ofList) (draws_lowerOption start ofStart)
      (draws_lowerOption stop ofStop)
  | entity line name symbol fields =>
    exact Draws.entityLiteral line name symbol (draws_lowerOptions fields mentioned)
  | field line entity name => exact Draws.fieldOf line name (draws_lower entity mentioned)
  | binary line operator left right =>
    obtain ⟨ofLeft, ofRight⟩ := List.append_subset.mp mentioned
    exact Draws.binary line operator (draws_lower left ofLeft) (draws_lower right ofRight)
  | unary line operator operand => exact Draws.unary line operator (draws_lower operand mentioned)
  | assignment line target value =>
    obtain ⟨ofTarget, ofValue⟩ := List.append_subset.mp mentioned
    exact Draws.assignment line (draws_lower target ofTarget) (draws_lower value ofValue)
  | call line callee arguments =>
    exact Draws.call (draws_lowerAll arguments mentioned) line callee

theorem draws_lowerAll (expressions : List Source.Expr)
    (mentioned : Source.mentionsAll expressions ⊆ names) :
    ∀ fragment ∈ lowerAll expressions, fragment.Draws names := by
  cases expressions with
  | nil =>
    intro fragment member
    cases member
  | cons expression rest =>
    obtain ⟨ofFirst, ofRest⟩ := List.append_subset.mp mentioned
    intro fragment member
    rcases List.mem_cons.mp member with rfl | later
    · exact draws_lower expression ofFirst
    · exact draws_lowerAll rest ofRest fragment later

theorem draws_lowerOption (expression : Option Source.Expr)
    (mentioned : Source.mentionsOption expression ⊆ names) :
    ∀ fragment ∈ lowerOption expression, fragment.Draws names := by
  cases expression with
  | none =>
    intro fragment member
    cases member
  | some expression =>
    intro fragment member
    cases member
    exact draws_lower expression mentioned

theorem draws_lowerOptions (expressions : List (Option Source.Expr))
    (mentioned : Source.mentionsOptions expressions ⊆ names) :
    ∀ fragment, some fragment ∈ lowerOptions expressions → fragment.Draws names := by
  cases expressions with
  | nil =>
    intro fragment member
    cases member
  | cons expression rest =>
    obtain ⟨ofFirst, ofRest⟩ := List.append_subset.mp mentioned
    intro fragment member
    rcases List.mem_cons.mp member with first | later
    · exact draws_lowerOption expression ofFirst fragment first.symm
    · exact draws_lowerOptions rest ofRest fragment later

end

end Kronk.Lowering
