import Kronk.Lowering.Stmt
import Kronk.Proofs.Consulted
import Kronk.Proofs.Leads

/-!
# The reach of expressions

An expression is lowered by reading the frame, looking names up, emitting code, recording fresh
aggregates and failing, and by nothing else: what these preserve, every expression preserves.
-/

namespace Kronk

namespace Lowering

theorem Lower.ask_eq_ok {α : Type} {answer : Except Failure α} {before after : Workbench}
    {value : α} (asked : Lower.ask answer before = .ok value after) :
    answer = .ok value ∧ before = after := by
  cases answer with
  | ok found =>
    cases asked
    exact ⟨rfl, rfl⟩
  | error failure => cases asked

/-- A computation that only reads the frame, looks names of a kind up, emits code, records fresh
aggregates and fails. -/
inductive Consults (names : String → Prop) : {α : Type} → Lower α → Prop where
  | pure {α : Type} (value : α) : Consults names (pure value)
  | bind {α β : Type} {first : Lower α} {next : α → Lower β} :
      Consults names first → (∀ value, Consults names (next value)) →
      Consults names (first >>= next)
  | fail {α : Type} (line : Nat) (error : LowerError) :
      Consults names (Lower.fail line error : Lower α)
  | ask {α : Type} (answer : Except Failure α) : Consults names (Lower.ask answer)
  | looks {α : Type} {next : Workbench → Lower α} :
      (∀ first second : Workbench, first.frame = second.frame →
        (∀ name, names name →
          Registry.AgreeOn name first.session.registry second.session.registry) →
        next first = next second) →
      (∀ bench, Consults names (next bench)) → Consults names (get >>= next)
  | emit {α : Type} (emission : Emit α) : Consults names (Lower.emit emission)
  | recordFresh (address : IR.Value) (type : Ty) : Consults names (Lower.recordFresh address type)

namespace Consults

variable {α β : Type} {names : String → Prop}

/-- What emission and the record of fresh aggregates preserve, every such computation preserves. -/
theorem preserves {invariant broken : Workbench → Prop} {computation : Lower α}
    (consults : Consults names computation) (breaks : ∀ bench, invariant bench → broken bench)
    (emits : ∀ bench draft, invariant bench →
      invariant { bench with frame := { bench.frame with draft } })
    (records : ∀ address type, Preserves invariant broken (Lower.recordFresh address type)) :
    Preserves invariant broken computation := by
  induction consults with
  | pure value => exact .pure value
  | bind _ _ first next => exact .bind first next
  | fail line error => exact .bind .get fun _ => .throw breaks _
  | ask answer =>
    cases answer with
    | ok value => exact .pure value
    | error failure => exact .throw breaks failure
  | looks _ _ next => exact .bind .get next
  | emit emission => exact fun bench holds => emits bench _ holds
  | recordFresh address type => exact records address type

theorem map {computation : Lower α} (consults : Consults names computation) (change : α → β) :
    Consults names (change <$> computation) := by
  rw [← bind_pure_comp]
  exact .bind consults fun _ => .pure _

theorem guard {condition : Prop} [Decidable condition] {line : Nat} {error : LowerError}
    {next : Lower α} (consults : Consults names next) :
    Consults names (do
      if condition then Lower.fail line error
      next) := by
  split
  · exact .bind (.fail _ _) fun _ => consults
  · exact consults

theorem currentModule : Consults names Lower.currentModule :=
  .looks (fun _ _ same _ => by rw [same]) fun _ => .pure _

theorem viewpoint : Consults names Lower.viewpoint := .bind currentModule fun _ => .pure _

theorem scope : Consults names Lower.scope :=
  .looks (fun _ _ same _ => by rw [same]) fun _ => .pure _

theorem entity? {name : String} (known : names name) : Consults names (Lower.entity? name) := by
  refine .looks (fun _ _ _ agree => ?_) fun _ => .bind viewpoint fun _ => .ask _
  simp only [(agree name known).entity]

theorem check (routine : Routine) (line : Nat) (arguments : List IR.Value) :
    Consults names (check routine line arguments) :=
  .looks (fun _ _ same _ => by rw [same]) fun _ => .emit _

theorem resolve (line : Nat) (own : Option String) {written : Source.TypeName}
    (known : written.Consults names) : Consults names (Lower.resolve line own written) := by
  induction written with
  | builtin type => cases type <;> exact .pure _
  | list element ih => exact .bind (ih known) fun _ => .pure _
  | entity name symbol =>
    refine .looks (fun _ _ _ agree => ?_) fun _ => ?_
    · simp only [(agree name known).owner, (agree name known).canonical]
    refine .bind viewpoint fun _ => .bind (.ask _) fun _ => .bind (.ask _) fun _ => ?_
    split
    · exact .pure _
    · refine .bind (entity? known) fun found => ?_
      cases found with
      | none => exact .fail _ _
      | some entity => exact .pure _

theorem convert? (operand : Operand) (target : Ty) : Consults names (convert? operand target) := by
  unfold Lowering.convert?
  split
  · exact .pure _
  · split
    · exact .bind (.emit _) fun _ => .pure _
    · exact .bind (.emit _) fun _ => .pure _
    · exact .pure _

theorem widen (operand : Operand) : Consults names (widen operand) :=
  .bind (convert? operand .real) fun _ => .pure _

theorem binding (line : Nat) (name : String) : Consults names (binding line name) := by
  refine .bind scope fun found => ?_
  split
  · exact .pure _
  · exact .fail _ _

end Consults

/-- A fragment whose value and whose place only look names of a kind up. -/
structure Fragment.Consults (names : String → Prop) (fragment : Fragment) : Prop where
  load : Lowering.Consults names fragment.load
  place : Lowering.Consults names fragment.place

namespace Fragment.Consults

open Lowering.Consults in
theorem value {fragment : Fragment} (consults : fragment.Consults names) :
    Lowering.Consults names fragment.value := by
  refine .bind consults.load fun found => ?_
  cases found with
  | none => exact .fail _ _
  | some operand => exact .pure _

theorem ofLoad {line : Nat} {load : Lower (Option Operand)}
    (consults : Lowering.Consults names load) :
    (Fragment.ofLoad line load).Consults names :=
  ⟨consults, .fail _ _⟩

theorem ofValue {line : Nat} {value : Lower Operand} (consults : Lowering.Consults names value) :
    (Fragment.ofValue line value).Consults names :=
  ofLoad (consults.map some)

end Fragment.Consults

namespace Consults

theorem indexValue {fragment : Fragment} (consults : fragment.Consults names) :
    Consults names (indexValue fragment) := by
  refine .bind consults.value fun operand => .bind (convert? operand .int) fun found => ?_
  cases found with
  | none => exact .fail _ _
  | some index => exact .pure _

theorem identifier (line : Nat) (name : String) : (identifier line name).Consults names := by
  constructor
  · refine .bind (binding line name) fun found => ?_
    split
    · exact .pure _
    · exact .bind (.emit _) fun _ => .bind (.emit _) fun _ => .pure _
  · exact .bind (binding line name) fun _ => .pure _

theorem listValue {fragment : Fragment} (consults : fragment.Consults names) :
    Consults names (listValue fragment) := by
  refine .bind consults.value fun operand => ?_
  split
  · exact .pure _
  · exact .fail _ _

theorem stringLiteral (line : Nat) (content : String) :
    (stringLiteral line content).Consults names := by
  refine .ofValue (.bind (.emit _) fun built => ?_)
  dsimp only
  split
  · exact .bind (.emit _) fun _ => .bind (.emit _) fun _ => .recordFresh _ _
  · exact .recordFresh _ _

theorem elementValues (line position : Nat) (earlier : Option Ty) {elements : List Fragment}
    (consults : ∀ element ∈ elements, element.Consults names) :
    Consults names (elementValues line position earlier elements) := by
  induction elements generalizing position earlier with
  | nil => exact .pure _
  | cons element rest ih =>
    have later := fun position earlier => ih position earlier
      fun element member => consults element (List.mem_cons_of_mem _ member)
    refine .bind (consults element List.mem_cons_self).value fun operand => .guard ?_
    exact .bind (later _ _) fun _ => .pure _

theorem listLiteral (line : Nat) {elements : List Fragment}
    (consults : ∀ element ∈ elements, element.Consults names) :
    (listLiteral line elements).Consults names := by
  refine .ofValue (.bind (elementValues line 1 none consults) fun operands => ?_)
  exact .bind (.emit _) fun _ => .bind (.emit _) fun _ => .recordFresh _ _

variable {list : Fragment} {arguments : List Fragment}

theorem elementPlace (line : Nat) {index : Fragment} (consultsList : list.Consults names)
    (consultsIndex : index.Consults names) : Consults names (elementPlace line list index) := by
  refine .bind (listValue consultsList) fun found => ?_
  refine .bind (.emit _) fun size => .bind (indexValue consultsIndex) fun given => ?_
  refine .bind (check _ _ _) fun _ => .bind (.emit _) fun _ => .bind (.emit _) fun _ => ?_
  exact .bind (.emit _) fun _ => .pure _

theorem elementOf (line : Nat) {index : Fragment} (consultsList : list.Consults names)
    (consultsIndex : index.Consults names) : (elementOf line list index).Consults names := by
  have place := elementPlace line consultsList consultsIndex
  constructor
  · refine .bind place fun found => ?_
    dsimp only
    split
    · refine .bind (.emit _) fun _ => .bind (.emit _) fun _ => ?_
      exact .bind (.recordFresh _ _) fun _ => .pure _
    · exact .bind (.emit _) fun _ => .bind (.emit _) fun _ => .pure _
  · exact .bind place fun _ => .pure _

theorem sliceBound (absent : IR.Value) {bound : Option Fragment}
    (consults : ∀ fragment ∈ bound, fragment.Consults names) :
    Consults names (sliceBound absent bound) := by
  cases bound with
  | none => exact .pure _
  | some fragment => exact indexValue (consults fragment rfl)

theorem sliceOf (line : Nat) {start stop : Option Fragment} (consultsList : list.Consults names)
    (consultsStart : ∀ fragment ∈ start, fragment.Consults names)
    (consultsStop : ∀ fragment ∈ stop, fragment.Consults names) :
    (sliceOf line list start stop).Consults names := by
  refine .ofValue (.bind (listValue consultsList) fun found => .bind (.emit _) fun size => ?_)
  refine .bind (sliceBound _ consultsStart) fun _ => .bind (sliceBound _ consultsStop) fun _ => ?_
  refine .bind (check _ _ _) fun _ => .bind (.emit _) fun _ => .bind (.emit _) fun _ => ?_
  refine .bind (.emit _) fun _ => .bind (.emit _) fun _ => .bind (.emit _) fun _ => ?_
  exact .bind (.emit _) fun _ => .recordFresh _ _

theorem storeFields (entity : Entity) (address : IR.Value) (record : IR.Ty) (index : Nat)
    {given : List (Option Fragment)} (fields : List (String × Ty))
    (consults : ∀ fragment, some fragment ∈ given → fragment.Consults names) :
    Consults names (storeFields entity address record index given fields) := by
  induction given generalizing index fields with
  | nil => exact .pure _
  | cons first rest ih =>
    cases fields with
    | nil => exact .pure _
    | cons field fields =>
      have later := ih (index + 1) fields
        fun fragment member => consults fragment (List.mem_cons_of_mem _ member)
      cases first with
      | none => exact later
      | some fragment =>
        rw [Lowering.storeFields]
        refine .bind (consults fragment List.mem_cons_self).value fun operand => ?_
        refine .bind (convert? operand _) fun found => ?_
        cases found with
        | none => exact .bind (.fail _ _) fun _ => later
        | some converted =>
          dsimp only
          split
          · exact .bind (.emit _) fun _ => .bind (.emit _) fun _ => later
          · exact .bind (.pure _) fun _ => .bind (.emit _) fun _ => later

theorem entityLiteral (line : Nat) {name : String} (symbol : String)
    {given : List (Option Fragment)}
    (known : names name) (consults : ∀ fragment, some fragment ∈ given → fragment.Consults names) :
    (entityLiteral line name symbol given).Consults names := by
  refine .ofValue (.bind (entity? known) fun found => ?_)
  cases found with
  | none => exact .fail _ _
  | some entity =>
    refine .bind (.emit _) fun record => .bind (.emit _) fun address => ?_
    exact .bind (storeFields _ _ _ _ _ consults) fun _ => .recordFresh _ _

theorem fieldPlace (line : Nat) (entity : Entity) (address : IR.Value) (name : String) :
    Consults names (fieldPlace line entity address name) := by
  unfold Lowering.fieldPlace
  split
  · exact .fail _ _
  · exact .bind (.emit _) fun _ => .bind (.emit _) fun _ => .pure _

theorem fieldOf (line : Nat) {target : Fragment} (consults : target.Consults names)
    (name : String) :
    (fieldOf line target name).Consults names := by
  constructor
  · refine .bind consults.value fun operand => ?_
    split
    · exact .guard (.bind (.emit _) fun _ => .bind (.emit _) fun _ => .pure _)
    · refine .bind (fieldPlace _ _ _ _) fun found => ?_
      exact .bind (.emit _) fun _ => .bind (.emit _) fun _ => .pure _
    · exact .fail _ _
  · refine .bind consults.value fun operand => ?_
    split
    · exact .guard (.fail _ _)
    · exact .bind (fieldPlace _ _ _ _) fun found => .pure _
    · exact .fail _ _

theorem assignAggregate (line : Nat) (target source : Operand) :
    Consults names (assignAggregate line target source) := by
  refine .guard (.guard ?_)
  split
  · exact .bind (.emit _) fun _ => .pure _
  · exact .bind (.emit _) fun _ => .bind (.emit _) fun _ => .pure _

theorem assignCharacter (line : Nat) (target source : Operand) :
    Consults names (assignCharacter line target source) :=
  .guard (.bind (.emit _) fun _ => .pure _)

theorem assignPrimitive (line : Nat) (target source : Operand) :
    Consults names (assignPrimitive line target source) := by
  refine .bind (convert? source target.type) fun found => ?_
  cases found with
  | none => exact .fail _ _
  | some converted => exact .bind (.emit _) fun _ => .pure _

theorem assignment (line : Nat) {target source : Fragment}
    (consultsTarget : target.Consults names) (consultsSource : source.Consults names) :
    (assignment line target source).Consults names := by
  refine .ofValue (.bind consultsTarget.place fun place => ?_)
  refine .bind consultsSource.value fun operand => ?_
  split
  · exact assignAggregate line place operand
  · split
    · exact assignCharacter line place operand
    · exact assignPrimitive line place operand

section

variable (consults : ∀ argument ∈ arguments, argument.Consults names)

include consults

theorem argumentValues (function : String) (position : Nat) (types : List Ty) :
    Consults names (argumentValues function position arguments types) := by
  induction arguments generalizing position types with
  | nil => exact .pure _
  | cons argument rest ih =>
    cases types with
    | nil => exact .pure _
    | cons type types =>
      have later := ih (fun argument member => consults argument (List.mem_cons_of_mem _ member))
        (position + 1) types
      refine .bind (consults argument List.mem_cons_self).value fun operand => ?_
      refine .bind (convert? operand type) fun found => ?_
      cases found with
      | none => exact .fail _ _
      | some converted => exact .bind later fun _ => .pure _

theorem printedArguments : Consults names (printedArguments arguments) := by
  induction arguments with
  | nil => exact .pure _
  | cons argument rest ih =>
    have later := ih
      fun argument member => consults argument (List.mem_cons_of_mem _ member)
    refine .bind (consults argument List.mem_cons_self).value fun operand => ?_
    refine .bind (widen operand) fun real => .bind (.emit _) fun printed => ?_
    exact .bind later fun _ => .pure _

theorem call (line : Nat) {callee : String} (known : names callee) :
    (call line callee arguments).Consults names := by
  refine .ofLoad (.looks (fun _ _ _ agree => ?_) fun _ => ?_)
  · simp only [(agree callee known).function]
  refine .bind viewpoint fun view => .bind (.ask _) fun found => ?_
  split
  · exact .fail _ _
  · dsimp only
    split
    · refine .bind (.bind (printedArguments consults) fun _ => ?_) fun _ => .pure _
      exact .emit _
    · exact .guard (.guard (.bind (argumentValues consults _ _ _) fun _ => .emit _))

end

theorem realBinary (line : Nat) (operator : Operator) (left right : IR.Value) :
    Consults names (realBinary line operator left right) := by
  unfold Lowering.realBinary
  split
  · exact .bind (.emit _) fun _ => .pure _
  split
  · exact .bind (.emit _) fun _ => .pure _
  split
  · split
    · exact .bind (check _ _ _) fun _ => .bind (.emit _) fun _ => .pure _
    · exact .bind (.emit _) fun _ => .pure _
  split
  · refine .bind (.emit _) fun found => ?_
    cases found with
    | none => exact .fail _ _
    | some result => exact .pure _
  · exact .fail _ _

theorem binaryOperation (line : Nat) (operator : Operator) (left right : Operand) :
    Consults names (binaryOperation line operator left right) := by
  unfold Lowering.binaryOperation
  split
  · split
    · exact .guard (.guard (.bind (.emit _) fun _ => .recordFresh _ _))
    · exact .fail _ _
  split
  · split
    · exact .bind (.emit _) fun _ => .pure _
    · exact .fail _ _
  split
  · exact .bind (widen left) fun _ => .bind (widen right) fun _ => realBinary _ _ _ _
  · exact .fail _ _

theorem binary (line : Nat) (operator : Operator) {left right : Fragment}
    (consultsLeft : left.Consults names) (consultsRight : right.Consults names) :
    (binary line operator left right).Consults names :=
  .ofValue (.bind consultsLeft.value fun _ => .bind consultsRight.value fun _ =>
    binaryOperation line operator _ _)

theorem unaryOperation (line : Nat) (operator : Operator) (operand : Operand) :
    Consults names (unaryOperation line operator operand) := by
  unfold Lowering.unaryOperation
  split
  · exact .guard (.bind (.emit _) fun _ => .pure _)
  split
  · refine .bind (widen operand) fun real => ?_
    split
    · exact .bind (.emit _) fun _ => .pure _
    · exact .bind (.emit _) fun _ => .bind (.emit _) fun _ => .bind (.emit _) fun _ => .pure _
    · exact .fail _ _
  · exact .fail _ _

theorem unary (line : Nat) (operator : Operator) {operand : Fragment}
    (consults : operand.Consults names) : (unary line operator operand).Consults names :=
  .ofValue (.bind consults.value fun _ => unaryOperation line operator _)

end Consults

mutual

/-- An expression looks up the names that it is written with. -/
theorem consults_lower {names : String → Prop} (expression : Source.Expr)
    (known : expression.Consults names) : (lower expression).Consults names := by
  cases expression with
  | boolean line value => exact .ofValue (.pure _)
  | number line value => exact .ofValue (.pure _)
  | string line value => exact Consults.stringLiteral line value
  | identifier line name => exact Consults.identifier line name
  | list line elements => exact Consults.listLiteral line (consults_lowerAll elements known)
  | index line list index =>
    exact Consults.elementOf line (consults_lower list known.1) (consults_lower index known.2)
  | slice line list start stop =>
    exact Consults.sliceOf line (consults_lower list known.1)
      (consults_lowerOption start known.2.1) (consults_lowerOption stop known.2.2)
  | entity line name symbol fields =>
    exact Consults.entityLiteral line symbol known.1 (consults_lowerOptions fields known.2)
  | field line entity name => exact Consults.fieldOf line (consults_lower entity known) name
  | binary line operator left right =>
    exact Consults.binary line operator (consults_lower left known.1)
      (consults_lower right known.2)
  | unary line operator operand =>
    exact Consults.unary line operator (consults_lower operand known)
  | assignment line target value =>
    exact Consults.assignment line (consults_lower target known.1) (consults_lower value known.2)
  | call line callee arguments =>
    exact Consults.call (consults_lowerAll arguments known.2) line known.1

theorem consults_lowerAll {names : String → Prop} (expressions : List Source.Expr)
    (known : Source.consultsAll names expressions) :
    ∀ fragment ∈ lowerAll expressions, fragment.Consults names := by
  cases expressions with
  | nil =>
    intro fragment member
    cases member
  | cons expression rest =>
    intro fragment member
    rcases List.mem_cons.mp member with rfl | later
    · exact consults_lower expression known.1
    · exact consults_lowerAll rest known.2 fragment later

theorem consults_lowerOption {names : String → Prop} (expression : Option Source.Expr)
    (known : Source.consultsOption names expression) :
    ∀ fragment ∈ lowerOption expression, fragment.Consults names := by
  cases expression with
  | none =>
    intro fragment member
    cases member
  | some expression =>
    intro fragment member
    cases member
    exact consults_lower expression known

theorem consults_lowerOptions {names : String → Prop} (expressions : List (Option Source.Expr))
    (known : Source.consultsOptions names expressions) :
    ∀ fragment, some fragment ∈ lowerOptions expressions → fragment.Consults names := by
  cases expressions with
  | nil =>
    intro fragment member
    cases member
  | cons expression rest =>
    intro fragment member
    rcases List.mem_cons.mp member with first | later
    · exact consults_lowerOption expression known.1 fragment first.symm
    · exact consults_lowerOptions rest known.2 fragment later

end

theorem consults_map_lower {names : String → Prop} {value : Option Source.Expr}
    (known : Source.consultsOption names value) :
    ∀ fragment ∈ value.map lower, fragment.Consults names := by
  intro fragment member
  obtain ⟨expression, rfl, rfl⟩ := Option.map_eq_some_iff.mp member
  exact consults_lower expression known

/-! ## Parts of statements -/

namespace Consults

variable {names : String → Prop}

theorem inFunctionBody : Consults names inFunctionBody :=
  .looks (fun _ _ same _ => by rw [same]) fun _ => .pure _

theorem resolveFields (line : Nat) (own : String) {fields : List (String × Source.TypeName)}
    (known : ∀ field ∈ fields, field.2.Consults names) :
    Consults names (resolveFields line own fields) := by
  induction fields with
  | nil => exact .pure _
  | cons field rest ih =>
    obtain ⟨knownFirst, knownRest⟩ := List.forall_mem_cons.mp known
    exact .bind (.resolve line (some own) knownFirst) fun _ => .bind (ih knownRest) fun _ => .pure _

theorem resolveAll (line : Nat) {parameters : List (String × Source.TypeName)}
    (known : ∀ parameter ∈ parameters, parameter.2.Consults names) :
    Consults names (parameters.mapM fun parameter => Lower.resolve line none parameter.2) := by
  induction parameters with
  | nil => exact .pure _
  | cons parameter rest ih =>
    obtain ⟨knownFirst, knownRest⟩ := List.forall_mem_cons.mp known
    rw [List.mapM_cons]
    exact .bind (.resolve line none knownFirst) fun _ => .bind (ih knownRest) fun _ => .pure _

theorem resolveHead {prototype : Source.Prototype} (known : prototype.Consults names) :
    Consults names (resolveHead prototype) := by
  refine .bind (resolveAll prototype.line known.1) fun parameters => .bind ?_ fun result =>
    .bind .currentModule fun _ => .pure _
  have knownResult := known.2
  generalize prototype.result = written at knownResult
  cases written with
  | none => exact .pure _
  | some written => exact .bind (.resolve _ _ (knownResult written rfl)) fun _ => .pure _

theorem conditionValue {condition : Fragment} (consults : condition.Consults names) :
    Consults names (conditionValue condition) :=
  .bind consults.value fun _ => .guard (.pure _)

theorem resultStatement (line : Nat) {value : Option Fragment}
    (consults : ∀ fragment ∈ value, fragment.Consults names) :
    Consults names (resultStatement line value) := by
  refine .looks (fun _ _ same _ => by rw [same]) fun bench => ?_
  split
  · exact .fail _ _
  · split
    · exact .emit _
    · refine .bind (consults _ rfl).value fun operand => .bind (.convert? _ _) fun found => ?_
      cases found with
      | none => exact .fail _ _
      | some converted => exact .bind (.emit _) fun _ => .emit _
    · exact .fail _ _

end Consults

/-- A computation that only looks names up, emits code, records fresh aggregates and fails. -/
abbrev Evaluates {α : Type} (computation : Lower α) : Prop := Consults (fun _ => True) computation

/-- A fragment whose value and whose place are evaluated. -/
abbrev Fragment.Evaluates (fragment : Fragment) : Prop := fragment.Consults fun _ => True

theorem evaluates_lower (expression : Source.Expr) : (lower expression).Evaluates :=
  consults_lower expression expression.consults_all

end Lowering

end Kronk
