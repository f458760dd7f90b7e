import Kronk.Compile
import Kronk.Proofs.Effect
import Kronk.Proofs.StatementReading

/-!
# What statements leave to inclusions

Every statement but an inclusion is quiet: it leaves the compiled modules, the files and the
identity of its module as they are, and tells the log nothing but debug messages.  An invariant that
quiet changes and the inclusions of a text preserve is preserved by the whole text.
-/

namespace Kronk

/-! ## Debug messages -/

namespace Log

/-- The second log is the first one with debug messages behind its own; there are none of them
unless it keeps debug messages. -/
structure Traced (before after : Log) : Prop where
  debug : after.debug = before.debug
  failures : after.failures = before.failures
  messages : ∃ said, after.messages = before.messages ++ said ∧
    ∀ message ∈ said, before.debug = true ∧ debugMark.toList <+: message.text.toList

namespace Traced

theorem refl (log : Log) : Traced log log where
  debug := rfl
  failures := rfl
  messages := ⟨[], by simp⟩

theorem trans {first second third : Log} (before : Traced first second)
    (after : Traced second third) : Traced first third := by
  obtain ⟨said, isSecond, marked⟩ := before.messages
  obtain ⟨later, isThird, laterMarked⟩ := after.messages
  refine ⟨after.debug.trans before.debug, after.failures.trans before.failures, said ++ later,
    ?_, ?_⟩
  · rw [isThird, isSecond, List.append_assoc]
  · intro message member
    rcases List.mem_append.mp member with isEarlier | isLater
    · exact marked message isEarlier
    · rw [← before.debug]
      exact laterMarked message isLater

theorem message {log : Log} {message : LogMessage} (debug : log.debug = true)
    (marked : debugMark.toList <+: message.text.toList) :
    Traced log { log with messages := log.messages ++ [message] } where
  debug := rfl
  failures := rfl
  messages := by
    refine ⟨[message], rfl, ?_⟩
    intro other member
    rw [List.mem_singleton.mp member]
    exact ⟨debug, marked⟩

theorem trace (log : Log) (message : String) : Traced log (log.trace message) := by
  unfold Log.trace
  split
  · rename_i debug
    apply Traced.message debug
    rw [LogMessage.text, String.toList_append]
    exact List.prefix_append _ _
  · exact refl log

theorem dump (log : Log) (title body : String) : Traced log (log.dump title body) := by
  unfold Log.dump
  split
  · rename_i debug
    apply Traced.message debug
    rw [LogMessage.text, String.toList_append, String.toList_append, String.toList_append,
      List.append_assoc, List.append_assoc]
    exact List.prefix_append _ _
  · exact refl log

end Traced

end Log

namespace Lowering

open Source

/-- A way of compiling an included file by its path, the id of its module and the line of the
inclusion. -/
abbrev Includer := String → String → Nat → Lower Unit

/-- A change that leaves the compiled modules, the files and the identity of the module as they are,
and adds nothing but debug messages to the log. -/
structure Quiet (before after : Workbench) : Prop where
  registry : after.session.registry = before.session.registry
  files : after.session.files = before.session.files
  searchPaths : after.session.searchPaths = before.session.searchPaths
  id : after.frame.module.id = before.frame.module.id
  file : after.frame.module.file = before.frame.module.file
  runtime : after.frame.module.runtime = before.frame.module.runtime
  dependencies : after.frame.module.dependencies = before.frame.module.dependencies
  log : before.session.log.Traced after.session.log

/-- A quiet change that leaves what the module says of its entities as it is. -/
structure Still (before after : Workbench) : Prop extends Quiet before after where
  signatures : after.frame.module.signatures = before.frame.module.signatures
  entities : after.frame.module.entities = before.frame.module.entities

/-- An invariant that holds on after every still change, and what is left of it after a failure. -/
structure Placid (invariant broken : Workbench → Prop) : Prop where
  still : ∀ before after, Still before after → invariant before → invariant after
  breaks : ∀ bench, invariant bench → broken bench

/-- An invariant that holds on after every quiet change, and what is left of it after a failure. -/
structure Calm (invariant broken : Workbench → Prop) : Prop where
  quiet : ∀ before after, Quiet before after → invariant before → invariant after
  breaks : ∀ bench, invariant bench → broken bench

theorem Calm.placid {invariant broken : Workbench → Prop} (calm : Calm invariant broken) :
    Placid invariant broken where
  still before after still := calm.quiet before after still.toQuiet
  breaks := calm.breaks

variable {bench : Workbench}

theorem still_frame {draft : Draft} {scopes : List Scope} {fileName : IR.Value} :
    Still bench { bench with frame := ⟨bench.frame.module, draft, scopes, fileName⟩ } :=
  ⟨⟨rfl, rfl, rfl, rfl, rfl, rfl, rfl, .refl _⟩, rfl, rfl⟩

private theorem still_functions {functions : Table Signature} : Still bench { bench with frame :=
      { bench.frame with module := { bench.frame.module with functions } } } :=
  ⟨⟨rfl, rfl, rfl, rfl, rfl, rfl, rfl, .refl _⟩, rfl, rfl⟩

theorem quiet_entities {signatures : Table (List String)} {entities : Table Entity} :
    Quiet bench { bench with frame := { bench.frame with module :=
      { bench.frame.module with signatures, entities } } } :=
  ⟨rfl, rfl, rfl, rfl, rfl, rfl, rfl, .refl _⟩

theorem still_log {log : Log} (traced : bench.session.log.Traced log) :
    Still bench { bench with session := { bench.session with log } } :=
  ⟨⟨rfl, rfl, rfl, rfl, rfl, rfl, rfl, traced⟩, rfl, rfl⟩

/-! ## Computations within a frame -/

/-- A computation that looks names of a kind up, emits code, fails, and makes changes that are still
and depend on the frame only. -/
inductive Framed (names : String → Prop) : {α : Type} → Lower α → Prop where
  | consults {α : Type} {computation : Lower α} :
      Consults names computation → Framed names computation
  | bind {α β : Type} {first : Lower α} {next : α → Lower β} :
      Framed names first → (∀ value, Framed names (next value)) → Framed names (first >>= next)
  | looks {α : Type} {next : Workbench → Lower α} :
      (∀ first second : Workbench, first.frame = second.frame → next first = next second) →
      (∀ bench, Framed names (next bench)) → Framed names (get >>= next)
  | modify {change : Workbench → Workbench} : (∀ bench, Still bench (change bench)) →
      (∀ first second : Workbench, first.frame = second.frame →
        (change first).frame = (change second).frame) → Framed names (modify change)

namespace Framed

variable {names : String → Prop} {α : Type}

theorem pure (value : α) : Framed names (Pure.pure value) := .consults (.pure value)

theorem emit (emission : Emit α) : Framed names (Lower.emit emission) := .consults (.emit emission)

theorem recordFresh (address : IR.Value) (type : Ty) :
    Framed names (Lower.recordFresh address type) :=
  .consults (.recordFresh address type)

theorem modifyFrame {change : Frame → Frame}
    (sameModule : ∀ frame, (change frame).module = frame.module) :
    Framed names (Lower.modifyFrame change) := by
  refine .modify (fun bench => ⟨?_, ?_, ?_⟩) fun _ _ same => by rw [same]
  · constructor <;> simp [sameModule, Log.Traced.refl]
  · simp [sameModule]
  · simp [sameModule]

theorem bindName (name : String) (address : IR.Value) (type : Ty) :
    Framed names (Lower.bindName name address type) := by
  unfold Lower.bindName Lower.modifyScope
  exact modifyFrame fun _ => rfl

theorem trace (message : String) : Framed names (Lower.trace message) :=
  .modify (fun _ => still_log (.trace _ _)) fun _ _ same => same

theorem guard {condition : Prop} [Decidable condition] {line : Nat} {error : LowerError}
    {next : Lower α} (framed : Framed names next) :
    Framed names (do
      if condition then Lower.fail line error
      next) := by
  split
  · exact .bind (.consults (.fail _ _)) fun _ => framed
  · exact framed

theorem declaration (line : Nat) (name : String) {written : TypeName}
    (known : written.Consults names) : Framed names (declaration line name written) := by
  refine .bind (.consults (.resolve _ _ known)) fun type => ?_
  split
  · exact .bind (emit _) fun _ => .bind (recordFresh _ _) fun _ => bindName _ _ _
  · exact .bind (emit _) fun _ => .bind (recordFresh _ _) fun _ => bindName _ _ _
  · exact .bind (emit _) fun _ => .bind (emit _) fun _ => bindName _ _ _

theorem initialisation (name : String) {value : Fragment} (consults : value.Consults names) :
    Framed names (initialisation name value) := by
  refine .bind (.consults consults.value) fun operand => ?_
  split
  · refine .bind (.consults .scope) fun innermost => ?_
    split
    · exact bindName _ _ _
    · exact .bind (emit _) fun _ => .bind (recordFresh _ _) fun _ => bindName _ _ _
  · refine .bind (.consults (.widen operand)) fun real => ?_
    exact .bind (emit _) fun _ => .bind (emit _) fun _ => bindName _ _ _

theorem bindParameters (parameters : List (IR.Value × String × Ty)) :
    Framed names (bindParameters parameters) := by
  induction parameters with
  | nil => exact pure _
  | cons parameter rest ih =>
    rw [Lowering.bindParameters]
    split
    · exact .bind (bindName _ _ _) fun _ => ih
    · exact .bind (emit _) fun _ => .bind (bindName _ _ _) fun _ => ih

theorem enterFunction (line : Nat) {prototype : Prototype} (known : prototype.Consults names) :
    Framed names (enterFunction line prototype) := by
  refine .bind (.consults .inFunctionBody) fun nested => .guard ?_
  refine .bind (.consults .currentModule) fun module => .guard ?_
  refine .bind (.consults (.resolveHead known)) fun function => ?_
  refine .bind (.modify (fun _ => still_functions) fun _ _ same => by rw [same]) fun _ => ?_
  refine .bind (emit _) fun index => .bind (trace _) fun _ => ?_
  refine .looks (fun _ _ same => by rw [same]) fun bench => .bind (modifyFrame fun _ => rfl)
    fun _ => ?_
  refine .bind (emit _) fun _ => .bind (emit _) fun slot => ?_
  exact .bind (modifyFrame fun _ => rfl) fun _ => .bind (bindParameters _) fun _ => pure _

theorem leaveFunction (suspended : Suspension) : Framed names (leaveFunction suspended) :=
  .bind (emit _) fun _ => modifyFrame fun _ => rfl

end Framed

section Invariants

variable {invariant broken : Workbench → Prop} {α : Type}

theorem Placid.framed {computation : Lower α} (placid : Placid invariant broken)
    (framed : Framed (fun _ => True) computation) : Preserves invariant broken computation := by
  induction framed with
  | consults consults =>
    refine consults.preserves placid.breaks
      (fun bench draft holds => placid.still bench _ still_frame holds) fun address type => ?_
    exact .bind (.modify fun bench holds => placid.still bench _ still_frame holds) fun _ => .pure _
  | bind _ _ first next => exact .bind first next
  | looks _ _ next => exact .bind .get next
  | modify still _ => exact .modify fun bench holds => placid.still bench _ (still bench) holds

theorem Placid.guard (placid : Placid invariant broken) {condition : Prop} [Decidable condition]
    {line : Nat} {error : LowerError} {next : Lower α}
    (preserves : Preserves invariant broken next) :
    Preserves invariant broken (do
      if condition then Lower.fail line error
      next) := by
  split
  · exact .bind (placid.framed (.consults (.fail _ _))) fun _ => preserves
  · exact preserves

theorem Calm.modify (calm : Calm invariant broken) {change : Workbench → Workbench}
    (quiet : ∀ bench, Quiet bench (change bench)) :
    Preserves invariant broken (modify change : Lower Unit) :=
  fun bench holds => calm.quiet bench _ (quiet bench) holds

theorem Calm.entityDefinition (calm : Calm invariant broken) (definition : EntityDefinition) :
    Preserves invariant broken (entityDefinition definition) := by
  refine .bind (calm.placid.framed (.consults .inFunctionBody)) fun nested => calm.placid.guard ?_
  refine .bind (calm.modify fun _ => quiet_entities) fun _ => ?_
  refine .bind (calm.placid.framed (.consults (.resolveFields _ _ ?_))) fun fields => ?_
  · exact fun field _ => field.2.consults_all
  refine .bind (calm.placid.framed (.consults .currentModule)) fun module => ?_
  refine .bind (calm.modify fun _ => quiet_entities) fun _ => ?_
  exact calm.placid.framed (.bind (.emit _) fun _ => .trace _)

end Invariants

/-! ## Statements with other inclusions -/

section Follows

variable (names : String → Prop) (compileIncluded other : Includer)

/-- Two computations that differ in their inclusions only: besides, they define entities and stay
within the frame. -/
inductive Follows : {α : Type} → Lower α → Lower α → Prop where
  | framed {α : Type} {computation : Lower α} :
      Framed names computation → Follows computation computation
  | bind {α β : Type} {first second : Lower α} {next following : α → Lower β} :
      Follows first second → (∀ value, Follows (next value) (following value)) →
      Follows (first >>= next) (second >>= following)
  | entity {definition : EntityDefinition} :
      (∀ field ∈ definition.fields, field.2.Consults names) →
      Follows (entityDefinition definition) (entityDefinition definition)
  | inclusion {written : Include} : IsWord written.id →
      Follows (inclusion compileIncluded written) (inclusion other written)

end Follows

namespace Follows

variable {names : String → Prop} {compileIncluded other : Includer}

theorem conditional {condition : Fragment}
    {consequent alternative otherConsequent otherAlternative : Lower Unit}
    (consults : condition.Consults names)
    (first : Follows names compileIncluded other consequent otherConsequent)
    (second : Follows names compileIncluded other alternative otherAlternative) :
    Follows names compileIncluded other (conditional condition consequent alternative)
      (Lowering.conditional condition otherConsequent otherAlternative) := by
  refine .bind (.framed (.consults (.conditionValue consults))) fun holds => ?_
  refine .bind (.framed (.emit _)) fun arms => .bind first fun _ => ?_
  exact .bind (.framed (.emit _)) fun _ => .bind second fun _ => .framed (.emit _)

variable {module : String}

mutual

/-- A statement with other inclusions does the same but for these. -/
theorem statement (stmt : Stmt) (known : stmt.Consults names)
    (belongs : ∀ part ∈ stmt.within, part.BelongsTo module) :
    Follows names compileIncluded other (Lowering.statement compileIncluded stmt)
      (Lowering.statement other stmt) := by
  cases stmt with
  | declaration line name type => exact .framed (.declaration line name known)
  | initialisation line name value =>
    exact .framed (.initialisation name (consults_lower value known))
  | entity definition => exact .entity known
  | function line prototype body =>
    refine .bind (.framed (.enterFunction line known.1)) fun suspended =>
      .bind (block body known.2 ?_) fun _ => .framed (.leaveFunction suspended)
    exact fun part member => belongs part (List.mem_cons_of_mem _ member)
  | result line value =>
    exact .framed (.consults (.resultStatement line (consults_map_lower known)))
  | conditional line condition consequent rest =>
    refine conditional (consults_lower condition known.1) (block consequent known.2.1 ?_)
      (alternative rest known.2.2 ?_)
    · exact fun part member =>
        belongs part (List.mem_cons_of_mem _ (List.mem_append_left _ member))
    · exact fun part member =>
        belongs part (List.mem_cons_of_mem _ (List.mem_append_right _ member))
  | loop line condition body =>
    refine .bind (.framed (.emit _)) fun round =>
      .bind (.framed (.consults (.conditionValue (consults_lower condition known.1)))) fun holds =>
        .bind (.framed (.emit _)) fun _ => .bind (block body known.2 ?_) fun _ => .framed (.emit _)
    exact fun part member => belongs part (List.mem_cons_of_mem _ member)
  | inclusion written => exact .inclusion (belongs (.inclusion written) List.mem_cons_self)
  | expression value =>
    exact .bind (.framed (.consults (consults_lower value known).load)) fun _ => .framed (.pure _)

theorem block (body : Block) (known : body.Consults names)
    (belongs : ∀ part ∈ body.within, part.BelongsTo module) :
    Follows names compileIncluded other (Lowering.block compileIncluded body)
      (Lowering.block other body) := by
  cases body with
  | mk line body => exact statements body known belongs

theorem statements (body : List Stmt) (known : stmtsConsult names body)
    (belongs : ∀ part ∈ withinAll body, part.BelongsTo module) :
    Follows names compileIncluded other (Lowering.statements compileIncluded body)
      (Lowering.statements other body) := by
  cases body with
  | nil => exact .framed (.pure _)
  | cons first rest =>
    have firstBelongs := fun part member => belongs part (List.mem_append_left _ member)
    have restBelongs := fun part member => belongs part (List.mem_append_right _ member)
    refine .bind (statement first known.1 firstBelongs) fun _ => ?_
    split
    · exact statements rest known.2 restBelongs
    · exact .framed (.pure _)

theorem alternative (rest : Alternative) (known : rest.Consults names)
    (belongs : ∀ part ∈ rest.within, part.BelongsTo module) :
    Follows names compileIncluded other (Lowering.alternative compileIncluded rest)
      (Lowering.alternative other rest) := by
  cases rest with
  | absent => exact .framed (.pure _)
  | block body => exact block body known belongs
  | conditional line condition consequent rest =>
    refine conditional (consults_lower condition known.1) (block consequent known.2.1 ?_)
      (alternative rest known.2.2 ?_)
    · exact fun part member => belongs part (List.mem_append_left _ member)
    · exact fun part member => belongs part (List.mem_append_right _ member)

end

/-- Such computations preserve what their inclusions preserve, and do the same if these do. -/
theorem agrees {invariant broken : Workbench → Prop} {α : Type} {one another : Lower α}
    (follows : Follows (fun _ => True) compileIncluded other one another)
    (calm : Calm invariant broken) (included : ∀ written : Include, IsWord written.id →
      Agrees invariant broken (Lowering.inclusion compileIncluded written)
        (Lowering.inclusion other written)) : Agrees invariant broken one another := by
  induction follows with
  | framed framed => exact .refl (calm.placid.framed framed)
  | bind _ _ first next => exact .bind first next
  | entity _ => exact .refl (calm.entityDefinition _)
  | inclusion isWord => exact included _ isWord

end Follows

end Lowering

namespace Compile

open Lowering Source

variable {invariant broken : Workbench → Prop}
  {compileIncluded other : Includer}

theorem traceAll_eq (session : Session) (messages : List String) :
    ∃ log, session.log.Traced log ∧ session.traceAll messages = { session with log } := by
  induction messages generalizing session with
  | nil => exact ⟨session.log, .refl _, rfl⟩
  | cons message rest ih =>
    obtain ⟨log, traced, same⟩ := ih (session.trace message)
    exact ⟨log, (Log.Traced.trace _ _).trans traced, same⟩

theorem finished_preserves (calm : Calm invariant broken) (after : Reading) :
    Preserves invariant broken (do
      Lower.modifyModule fun module => { module with signatures := after.signatures }
      modify fun bench => { bench with session := bench.session.traceAll after.trace }) := by
  refine .bind (calm.modify fun _ => quiet_entities) fun _ => ?_
  refine calm.modify fun bench => ?_
  obtain ⟨log, traced, same⟩ := traceAll_eq bench.session after.trace
  rw [same]
  exact (still_log traced).toQuiet

/-- A statement whose code is looked through preserves what it does by itself. -/
theorem checked_agrees {one another : Lower Unit} (calm : Calm invariant broken)
    (agrees : Agrees invariant broken one another) :
    Agrees invariant broken (checked one) (checked another) where
  preserves bench holds := by
    have kept := agrees.preserves bench holds
    unfold checked
    cases outcome : one bench with
    | ok _ after =>
      rw [outcome] at kept
      unfold examined
      cases refused : after.frame.draft.refusal? with
      | none =>
        simp only [refused]
        exact kept
      | some message =>
        simp only [refused]
        exact calm.breaks after kept
    | error failure after =>
      rw [outcome] at kept
      exact kept
  same bench holds := by
    unfold checked
    rw [agrees.same bench holds]

theorem of_checked_eq_ok {lowering : Lower Unit} {bench later : Workbench}
    (outcome : checked lowering bench = .ok () later) : lowering bench = .ok () later := by
  unfold checked at outcome
  cases result : lowering bench with
  | error failure after =>
    rw [result] at outcome
    cases outcome
  | ok _ after =>
    rw [result, examined] at outcome
    cases refused : after.frame.draft.refusal? with
    | none =>
      simp only [refused] at outcome
      exact outcome
    | some message =>
      simp only [refused] at outcome
      cases outcome

/-- The statements of a file preserve what their inclusions preserve, and do the same with other
inclusions that do the same. -/
theorem statements_agree (calm : Calm invariant broken)
    (included : ∀ written : Include, IsWord written.id →
      Agrees invariant broken (inclusion compileIncluded written) (inclusion other written))
    (fuel : Nat) (reading : Reading) (worded : reading.Worded) :
    Agrees invariant broken (statements compileIncluded fuel reading)
      (statements other fuel reading) := by
  induction fuel generalizing reading with
  | zero => exact .refl (.throw calm.breaks _)
  | succ fuel ih =>
    rw [statements, statements]
    refine .bind (.refl .get) fun bench => ?_
    dsimp only
    split
    · exact .refl (.bind (finished_preserves calm _) fun _ => .throw calm.breaks _)
    · exact .refl (finished_preserves calm _)
    · rename_i written after found
      refine .bind (.refl (finished_preserves calm _)) fun _ => ?_
      refine .bind (.refl (calm.modify fun _ => (still_log (.dump _ _ _)).toQuiet)) fun _ => ?_
      obtain ⟨recorded, belongs⟩ := Reading.statement_belongs (by exact worded) found
      have known := (Reading.statement_alike (.single ⟨_, _, _⟩) _).2 written after found
      have agrees := (Follows.statement written known belongs).agrees calm included
      refine .bind (checked_agrees calm agrees) fun _ => ?_
      exact ih after recorded.worded

/-- The text of a file preserves what its inclusions preserve, and does the same with other
inclusions that do the same. -/
theorem body_agrees (calm : Calm invariant broken)
    (included : ∀ written : Include, IsWord written.id →
      Agrees invariant broken (inclusion compileIncluded written) (inclusion other written))
    (text : String) : Agrees invariant broken (body compileIncluded text) (body other text) := by
  refine .bind (.refl .get) fun bench => ?_
  dsimp only
  split
  · exact .refl (.throw calm.breaks _)
  · rename_i reading found
    refine statements_agree calm included _ reading ?_
    exact Reading.start_worded (Token.scanLines_worded 1 text.toList) found

/-- The text of a file preserves what its inclusions preserve. -/
theorem body_preserves (calm : Calm invariant broken)
    (included : ∀ written : Include, IsWord written.id →
      Preserves invariant broken (inclusion compileIncluded written))
    (text : String) : Preserves invariant broken (body compileIncluded text) :=
  (body_agrees calm (fun written isWord => .refl (included written isWord)) text).preserves

end Compile

end Kronk
