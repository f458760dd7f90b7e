import Mathlib.Data.List.Forall2
import Mathlib.Data.List.Nodup
import Kronk.Proofs.Dominance

/-!
# Signatures and entities

A module has two tables of its entities.  Reading a definition records the names of the fields, and
lowering it records the entity itself.  The two see the same definitions in the same order, except
that nothing is lowered behind a statement that leaves its function.  The main statement is
`Compile.entity_tables`: every module of source text lists the signatures of the definitions in its
text and the entities of those that were lowered, so that a name has an entity with the fields of
its signature, unless its definition stands behind a result.
-/

namespace Kronk.Source

mutual

/-- A statement and the statements in its blocks that are lowered with it. -/
def Stmt.reached : Stmt → List Stmt
  | .declaration line name type => [.declaration line name type]
  | .initialisation line name value => [.initialisation line name value]
  | .entity definition => [.entity definition]
  | .function line prototype body => .function line prototype body :: body.reached
  | .result line value => [.result line value]
  | .conditional line condition consequent rest =>
    .conditional line condition consequent rest :: (consequent.reached ++ rest.reached)
  | .loop line condition body => .loop line condition body :: body.reached
  | .inclusion written => [.inclusion written]
  | .expression value => [.expression value]

def Block.reached : Block → List Stmt
  | .mk _ body => reachedAll body

/-- The statements that are lowered in what follows the first block of a conditional. -/
def Alternative.reached : Alternative → List Stmt
  | .absent => []
  | .block body => body.reached
  | .conditional _ _ consequent rest => consequent.reached ++ rest.reached

/-- The statements of a list that are lowered: none behind one that leaves the function. -/
def reachedAll : List Stmt → List Stmt
  | [] => []
  | first :: rest => first.reached ++ if first.isResult then [] else reachedAll rest

end

mutual

theorem Stmt.reached_sublist (stmt : Stmt) : stmt.reached.Sublist stmt.within := by
  cases stmt with
  | function line prototype body => exact body.reached_sublist.cons_cons _
  | conditional line condition consequent rest =>
    exact (consequent.reached_sublist.append rest.reached_sublist).cons_cons _
  | loop line condition body => exact body.reached_sublist.cons_cons _
  | _ => exact List.Sublist.refl _

theorem Block.reached_sublist (body : Block) : body.reached.Sublist body.within := by
  cases body with
  | mk line body => exact reachedAll_sublist body

theorem Alternative.reached_sublist (rest : Alternative) : rest.reached.Sublist rest.within := by
  cases rest with
  | absent => exact List.Sublist.refl _
  | block body => exact body.reached_sublist
  | conditional line condition consequent rest =>
    exact consequent.reached_sublist.append rest.reached_sublist

theorem reachedAll_sublist (body : List Stmt) : (reachedAll body).Sublist (withinAll body) := by
  cases body with
  | nil => exact List.Sublist.refl _
  | cons first rest =>
    rw [reachedAll, withinAll]
    split
    · exact first.reached_sublist.append (List.nil_sublist _)
    · exact first.reached_sublist.append (reachedAll_sublist rest)

end

/-- The definitions in a text, in the order in which they are read. -/
def definitionsRead (written : List Stmt) : List EntityDefinition :=
  definitionsIn (withinAll written)

def definitionsLowered (written : List Stmt) : List EntityDefinition :=
  definitionsIn (written.flatMap Stmt.reached)

@[simp] theorem definitionsRead_nil : definitionsRead [] = [] := rfl

@[simp] theorem definitionsLowered_nil : definitionsLowered [] = [] := rfl

private theorem definitionsRead_cons (first : Stmt) (rest : List Stmt) :
    definitionsRead (first :: rest) = definitionsIn first.within ++ definitionsRead rest :=
  definitionsIn_append first.within (withinAll rest)

private theorem definitionsLowered_cons (first : Stmt) (rest : List Stmt) :
    definitionsLowered (first :: rest) =
      definitionsIn first.reached ++ definitionsLowered rest := by
  rw [definitionsLowered, List.flatMap_cons, definitionsIn_append]
  rfl

/-- The entity that a definition makes in a module. -/
structure EntityDefinition.Makes (module : String) (definition : EntityDefinition)
    (entity : Entity) : Prop where
  header : entity.header = ⟨definition.name, module, definition.symbol⟩
  fieldNames : entity.fieldNames = definition.fields.map Prod.fst
  fieldTypes : entity.fieldTypes.length = definition.fields.length

/-- The entry that a definition makes in the table of entities. -/
def EntityDefinition.Enters (module : String) (definition : EntityDefinition)
    (entry : String × Entity) : Prop :=
  entry.1 = definition.name ∧ definition.Makes module entry.2

theorem keys_of_enters {module : String} {definitions : List EntityDefinition}
    {entries : List (String × Entity)}
    (entered : List.Forall₂ (EntityDefinition.Enters module) definitions entries) :
    entries.map Prod.fst = definitions.map EntityDefinition.name := by
  induction entered with
  | nil => rfl
  | cons enters _ ih =>
    rw [List.map_cons, List.map_cons, ih, enters.1]

theorem exists_of_enters {module : String} {definitions : List EntityDefinition}
    {entries : List (String × Entity)}
    (entered : List.Forall₂ (EntityDefinition.Enters module) definitions entries)
    {entry : String × Entity} (member : entry ∈ entries) :
    ∃ definition ∈ definitions, definition.Enters module entry := by
  induction entered with
  | nil => cases member
  | @cons definition first _ _ enters _ ih =>
    rcases List.mem_cons.mp member with rfl | later
    · exact ⟨definition, List.mem_cons_self, enters⟩
    · obtain ⟨other, among, entersLater⟩ := ih later
      exact ⟨other, List.mem_cons_of_mem _ among, entersLater⟩

end Kronk.Source

namespace Kronk

open Source

namespace Module

/-- Both tables of the module say the same of every name. -/
def Tallies (module : Module) : Prop :=
  ∀ name, module.signatures.get? name = (module.entities.get? name).map Entity.fieldNames

/-- The module lists the signatures of the definitions that were read and the entities of those that
were lowered. -/
structure Lists (read lowered : List EntityDefinition) (module : Module) : Prop where
  signatures : module.signatures.entries = read.map EntityDefinition.signature
  entities : List.Forall₂ (EntityDefinition.Enters module.id) lowered module.entities.entries
  distinct : (read.map EntityDefinition.name).Nodup
  among : lowered.Sublist read
  own : ∀ definition ∈ read, definition.name = Name.ofType module.id definition.symbol

namespace Lists

variable {read lowered : List EntityDefinition} {module : Module}

section

variable (lists : module.Lists read lowered)

include lists

theorem signature_of_mem {definition : EntityDefinition} (member : definition ∈ read) :
    module.signatures.get? definition.name = some (definition.fields.map Prod.fst) := by
  apply Table.lookup_of_mem
  · rw [lists.signatures, List.map_map]
    exact lists.distinct
  · rw [lists.signatures]
    exact List.mem_map_of_mem member

variable {name : String}

theorem definition_of_signature {fields : List String}
    (found : module.signatures.get? name = some fields) :
    ∃ definition ∈ read, definition.signature = (name, fields) := by
  have member := Table.mem_of_lookup found
  rw [lists.signatures] at member
  exact List.mem_map.mp member

theorem definition_of_entity {entity : Entity} (found : module.entities.get? name = some entity) :
    ∃ definition ∈ lowered, definition.Enters module.id (name, entity) :=
  exists_of_enters lists.entities (Table.mem_of_lookup found)

theorem entities_get?_eq_none
    (absent : name ∉ lowered.map EntityDefinition.name) : module.entities.get? name = none := by
  cases found : module.entities.get? name with
  | none => rfl
  | some entity =>
    obtain ⟨definition, member, named, -⟩ := lists.definition_of_entity found
    exact absurd (List.mem_map.mpr ⟨definition, member, named.symm⟩) absent

/-- The signature of an entity is the names of its fields. -/
theorem signature_of_entity {entity : Entity} (found : module.entities.get? name = some entity) :
    module.signatures.get? name = some entity.fieldNames := by
  obtain ⟨definition, member, named, makes⟩ := lists.definition_of_entity found
  dsimp only at named makes
  rw [named, makes.fieldNames]
  exact lists.signature_of_mem (lists.among.subset member)

/-- The tables say the same of every name if and only if every definition was lowered. -/
theorem tallies_iff : module.Tallies ↔ lowered = read := by
  constructor
  · intro tallies
    apply lists.among.eq_of_length_le
    refine (List.Nodup.of_map _ lists.distinct).length_le_of_subset fun definition member => ?_
    have signed := lists.signature_of_mem member
    rw [tallies, Option.map_eq_some_iff] at signed
    obtain ⟨entity, found, -⟩ := signed
    obtain ⟨other, among, named, -⟩ := lists.definition_of_entity found
    have same := List.inj_on_of_nodup_map lists.distinct member (lists.among.subset among) named
    exact same ▸ among
  · rintro rfl name
    cases found : module.entities.get? name with
    | some entity => exact lists.signature_of_entity found
    | none =>
      cases known : module.signatures.get? name with
      | none => rfl
      | some fields =>
        obtain ⟨definition, member, signed⟩ := lists.definition_of_signature known
        cases signed
        have entered : definition.name ∈ module.entities.entries.map Prod.fst := by
          rw [keys_of_enters lists.entities]
          exact List.mem_map_of_mem member
        obtain ⟨entry, there, named⟩ := List.mem_map.mp entered
        have none_iff := List.lookup_eq_none_iff.mp found entry there
        simp [named] at none_iff

end

end Lists

end Module

/-- Where the tables of all modules say the same, a name has a signature if and only if it has an
entity, which has the fields of the signature. -/
theorem Registry.signature?_eq {registry : Registry} {view : Viewpoint}
    (tallies : ∀ module ∈ view.module :: registry.registrations, module.Tallies)
    (mangled : String) : registry.signature? view mangled =
      (registry.entity? view mangled).map (Option.map Entity.fieldNames) := by
  unfold signature? entity? lookup?
  cases found : registry.owner? view mangled with
  | error failure => rfl
  | ok owner? =>
    cases owner? with
    | none => rfl
    | some owner =>
      simp only [bind, Except.bind]
      cases registry.canonical mangled with
      | error failure => rfl
      | ok name => exact congrArg Except.ok (tallies owner.module (mem_of_owner? found) name)

/-! ## What lowering enters -/

namespace Module

/-- The definitions have their signatures in the module, but no entities yet. -/
structure Expects (definitions : List EntityDefinition) (module : Module) : Prop where
  distinct : (definitions.map EntityDefinition.name).Nodup
  signed : ∀ definition ∈ definitions,
    module.signatures.get? definition.name = some (definition.fields.map Prod.fst)
  absent : ∀ definition ∈ definitions, module.entities.get? definition.name = none

/-- The module after entities of some definitions were entered. -/
structure Gains (definitions : List EntityDefinition) (before after : Module) : Prop where
  id : after.id = before.id
  signatures : after.signatures = before.signatures
  entities : ∃ entries, after.entities.entries = before.entities.entries ++ entries ∧
    List.Forall₂ (EntityDefinition.Enters before.id) definitions entries

theorem Gains.none {before after : Module} (id : after.id = before.id)
    (signatures : after.signatures = before.signatures)
    (entities : after.entities = before.entities) : Gains [] before after :=
  ⟨id, signatures, [], by rw [entities, List.append_nil], .nil⟩

theorem Gains.trans {earlier later : List EntityDefinition} {first second third : Module}
    (former : Gains earlier first second) (latter : Gains later second third) :
    Gains (earlier ++ later) first third := by
  obtain ⟨entries, same, entered⟩ := former.entities
  obtain ⟨others, sameLater, enteredLater⟩ := latter.entities
  refine ⟨latter.id.trans former.id, latter.signatures.trans former.signatures,
    entries ++ others, ?_, ?_⟩
  · rw [sameLater, same, List.append_assoc]
  · rw [former.id] at enteredLater
    exact List.rel_append entered enteredLater

theorem Expects.earlier {earlier later : List EntityDefinition} {module : Module}
    (expects : module.Expects (earlier ++ later)) : module.Expects earlier where
  distinct := by
    have distinct := expects.distinct
    rw [List.map_append] at distinct
    exact distinct.of_append_left
  signed definition member := expects.signed definition (List.mem_append_left _ member)
  absent definition member := expects.absent definition (List.mem_append_left _ member)

/-- What is expected still is after other entities were entered. -/
theorem Expects.later {earlier later : List EntityDefinition} {before after : Module}
    (expects : before.Expects (earlier ++ later)) (gains : Gains earlier before after) :
    after.Expects later := by
  have distinct := expects.distinct
  rw [List.map_append] at distinct
  obtain ⟨entries, same, entered⟩ := gains.entities
  refine ⟨distinct.of_append_right, fun definition member => ?_, fun definition member => ?_⟩
  · rw [gains.signatures]
    exact expects.signed definition (List.mem_append_right _ member)
  · have before := expects.absent definition (List.mem_append_right _ member)
    have apart := List.disjoint_of_nodup_append distinct
    rw [Table.get?] at before ⊢
    rw [same, List.lookup_append, before, Option.none_or, List.lookup_eq_none_iff]
    intro entry among
    have named : entry.1 ∈ earlier.map EntityDefinition.name := by
      rw [← keys_of_enters entered]
      exact List.mem_map_of_mem among
    have differs : definition.name ≠ entry.1 := by
      intro same
      exact apart (same ▸ named) (List.mem_map_of_mem member)
    simpa using differs

end Module

namespace Lowering

/-- Lowering that enters the entities of some definitions. -/
def Defines {α : Type} (definitions : List EntityDefinition) (lowering : Lower α) : Prop :=
  ∀ before value after, lowering before = .ok value after →
    before.frame.module.Expects definitions →
    before.frame.module.Gains definitions after.frame.module

theorem Still.refl (bench : Workbench) : Still bench bench :=
  ⟨⟨rfl, rfl, rfl, rfl, rfl, rfl, rfl, .refl _⟩, rfl, rfl⟩

theorem Still.trans {first second third : Workbench} (former : Still first second)
    (latter : Still second third) : Still first third where
  registry := latter.registry.trans former.registry
  files := latter.files.trans former.files
  searchPaths := latter.searchPaths.trans former.searchPaths
  id := latter.id.trans former.id
  file := latter.file.trans former.file
  runtime := latter.runtime.trans former.runtime
  dependencies := latter.dependencies.trans former.dependencies
  log := former.log.trans latter.log
  signatures := latter.signatures.trans former.signatures
  entities := latter.entities.trans former.entities

theorem Framed.still {α : Type} {lowering : Lower α} {before after : Workbench} {value : α}
    (framed : Framed (fun _ => True) lowering) (outcome : lowering before = .ok value after) :
    Still before after := by
  have placid : Placid (Still before) fun _ => True :=
    ⟨fun _ _ change still => still.trans change, fun _ _ => trivial⟩
  exact (placid.framed framed).of_ok outcome (.refl before)

theorem Still.gains {before after : Workbench} (still : Still before after) :
    before.frame.module.Gains [] after.frame.module :=
  .none still.id still.signatures still.entities

namespace Defines

variable {α β : Type} {earlier later definitions : List EntityDefinition}

variable {first : Lower α} {next : α → Lower β}

theorem bind (former : Defines earlier first) (latter : ∀ value, Defines later (next value)) :
    Defines (earlier ++ later) (first >>= next) := by
  intro before value after outcome expects
  obtain ⟨middle, between, starts, continues⟩ := bind_eq_ok outcome
  have gains := former before middle between starts expects.earlier
  exact gains.trans (latter middle between value after continues (expects.later gains))

theorem still {lowering : Lower α} (framed : Framed (fun _ => True) lowering) :
    Defines [] lowering := by
  intro before value after outcome _
  exact (framed.still outcome).gains

theorem before (framed : Framed (fun _ => True) first)
    (defines : ∀ value, Defines definitions (next value)) : Defines definitions (first >>= next) :=
  bind (still framed) defines

theorem andThen (defines : Defines definitions first)
    (framed : ∀ value, Framed (fun _ => True) (next value)) :
    Defines definitions (first >>= next) := by
  have both := bind defines fun value => still (framed value)
  rwa [List.append_nil] at both

theorem resolveFields_names {line : Nat} {own : String} {written : List (String × TypeName)}
    {before after : Workbench} {fields : List (String × Ty)}
    (outcome : resolveFields line own written before = .ok fields after) :
    fields.map Prod.fst = written.map Prod.fst := by
  induction written generalizing before fields with
  | nil =>
    cases outcome
    rfl
  | cons field rest ih =>
    obtain ⟨type, middle, _, outcome⟩ := bind_eq_ok outcome
    obtain ⟨others, between, resolved, outcome⟩ := bind_eq_ok outcome
    cases outcome
    rw [List.map_cons, List.map_cons, ih resolved]

/-- The signature is there already, and the entity is added behind the others. -/
theorem entityDefinition (definition : EntityDefinition) :
    Defines [definition] (entityDefinition definition) := by
  apply before (.consults .inFunctionBody)
  intro nested bench value final outcome expects
  split at outcome
  · obtain ⟨_, _, failed, _⟩ := bind_eq_ok outcome
    cases failed
  · obtain ⟨⟨⟩, signed, signs, outcome⟩ := bind_eq_ok outcome
    obtain ⟨fields, resolved, resolves, outcome⟩ := bind_eq_ok outcome
    obtain ⟨module, _, ⟨⟩, outcome⟩ := bind_eq_ok outcome
    obtain ⟨⟨⟩, entered, enters, outcome⟩ := bind_eq_ok outcome
    have names := resolveFields_names resolves
    have resolving := Framed.still
      (.consults (.resolveFields _ _ fun field _ => field.2.consults_all)) resolves
    have ending : Still entered final :=
      Framed.still (.bind (.emit _) fun _ => .trace _) outcome
    have kept : signed.frame.module.signatures = bench.frame.module.signatures := by
      cases signs
      exact congrArg Table.mk
        (Table.insertEntry_same (expects.signed definition List.mem_cons_self))
    have unchanged : signed.frame.module.entities = bench.frame.module.entities := by
      cases signs
      rfl
    have sameId : signed.frame.module.id = bench.frame.module.id := by
      cases signs
      rfl
    have absent := expects.absent definition List.mem_cons_self
    cases enters
    refine ⟨ending.id.trans (resolving.id.trans sameId),
      ending.signatures.trans (resolving.signatures.trans kept),
      [(definition.name, ⟨⟨definition.name, resolved.frame.module.id, definition.symbol⟩, fields⟩)],
      ?_, .cons ⟨rfl, ?_, names, ?_⟩ .nil⟩
    · rw [ending.entities]
      dsimp only
      rw [resolving.entities, unchanged]
      exact Table.insertEntry_new absent
    · rw [resolving.id, sameId]
    · have lengths := congrArg List.length names
      simpa [Entity.fieldTypes] using lengths

theorem functionDefinition (line : Nat) (prototype : Prototype) {body : Lower Unit}
    (defines : Defines definitions body) :
    Defines definitions (functionDefinition line prototype body) := by
  apply before (.enterFunction line prototype.consults_all)
  intro suspended
  exact defines.andThen fun _ => .leaveFunction suspended

theorem conditional {condition : Fragment} {consequent alternative : Lower Unit}
    (evaluates : condition.Evaluates) (former : Defines earlier consequent)
    (latter : Defines later alternative) :
    Defines (earlier ++ later) (conditional condition consequent alternative) := by
  apply before (.consults (.conditionValue evaluates))
  intro holds
  apply before (.emit _)
  intro arms
  apply former.bind
  intro _
  apply before (.emit _)
  intro _
  exact latter.andThen fun _ => .emit _

theorem loop {condition : Fragment} {body : Lower Unit} (evaluates : condition.Evaluates)
    (defines : Defines definitions body) : Defines definitions (loop condition body) := by
  apply before (.emit _)
  intro round
  apply before (.consults (.conditionValue evaluates))
  intro holds
  apply before (.emit _)
  intro _
  exact defines.andThen fun _ => .emit _

section Statements

variable {compileIncluded : Includer}

theorem inclusion (waits : Waits compileIncluded) (written : Include) :
    Defines [] (inclusion compileIncluded written) := by
  intro bench value final outcome _
  have results := Compile.inclusion_cases compileIncluded written bench
  rw [outcome] at results
  cases results with
  | runtime target known new => exact .none rfl rfl rfl
  | included new compiles =>
    have same := waits _ _ _ _ _ compiles
    dsimp only [Compile.withLog, Compile.withDependency] at same ⊢
    rw [same]
    exact .none rfl rfl rfl

mutual

/-- A statement enters the entities of the definitions that are lowered with it. -/
theorem statement (waits : Waits compileIncluded) (stmt : Stmt) :
    Defines (definitionsIn stmt.reached) (statement compileIncluded stmt) := by
  cases stmt with
  | declaration line name type =>
    exact still (.declaration line name type.consults_all)
  | initialisation line name value =>
    exact still (.initialisation name (evaluates_lower value))
  | entity definition => exact entityDefinition definition
  | function line prototype body => exact functionDefinition line prototype (block waits body)
  | result line value =>
    have known := consults_map_lower (consultsOption_all value)
    exact still (.consults (.resultStatement line known))
  | conditional line condition consequent rest =>
    have both := conditional (evaluates_lower condition) (block waits consequent)
      (alternative waits rest)
    rwa [← definitionsIn_append] at both
  | loop line condition body => exact loop (evaluates_lower condition) (block waits body)
  | inclusion written => exact inclusion waits written
  | expression value =>
    exact still (.bind (.consults (evaluates_lower value).load) fun _ => .pure _)

theorem block (waits : Waits compileIncluded) (body : Block) :
    Defines (definitionsIn body.reached) (block compileIncluded body) := by
  cases body with
  | mk line body => exact statements waits body

theorem statements (waits : Waits compileIncluded) (body : List Stmt) :
    Defines (definitionsIn (reachedAll body)) (statements compileIncluded body) := by
  cases body with
  | nil => exact still (.pure _)
  | cons first rest =>
    rw [reachedAll, definitionsIn_append]
    apply (statement waits first).bind
    intro _
    cases first.isResult with
    | true => exact still (.pure _)
    | false => exact statements waits rest

theorem alternative (waits : Waits compileIncluded) (rest : Alternative) :
    Defines (definitionsIn rest.reached) (alternative compileIncluded rest) := by
  cases rest with
  | absent => exact still (.pure _)
  | block body => exact block waits body
  | conditional line condition consequent rest =>
    have both := conditional (evaluates_lower condition) (block waits consequent)
      (alternative waits rest)
    rwa [← definitionsIn_append] at both

end

end Statements

end Defines

end Lowering

/-! ## The tables of a file -/

namespace Module.Lists

variable {read new lowered definitions : List EntityDefinition} {before after module : Module}

theorem noted {reading : Reading} (lists : module.Lists read lowered)
    (recorded : Recorded module.signatures new reading)
    (own : ∀ definition ∈ new, definition.name = Name.ofType module.id definition.symbol) :
    { module with signatures := reading.signatures }.Lists (read ++ new) lowered where
  signatures := by
    rw [List.map_append, ← lists.signatures]
    exact recorded.signed
  entities := lists.entities
  distinct := by
    rw [List.map_append, List.nodup_append]
    refine ⟨lists.distinct, recorded.distinct, ?_⟩
    rintro name earlier other later rfl
    obtain ⟨old, among, named⟩ := List.mem_map.mp earlier
    obtain ⟨definition, member, rfl⟩ := List.mem_map.mp later
    have fresh := Table.contains_eq_false_iff.mp (recorded.fresh definition member)
    rw [← named, lists.signature_of_mem among] at fresh
    cases fresh
  among := lists.among.trans (List.sublist_append_left read new)
  own definition member := by
    rcases List.mem_append.mp member with old | fresh
    · exact lists.own definition old
    · exact own definition fresh

/-- What was just read is expected to be lowered. -/
theorem expects (lists : module.Lists (read ++ new) lowered) (earlier : lowered.Sublist read)
    (among : definitions.Sublist new) : module.Expects definitions := by
  have distinct := lists.distinct
  rw [List.map_append] at distinct
  refine ⟨distinct.of_append_right.sublist (among.map _), fun definition member => ?_,
    fun definition member => ?_⟩
  · exact lists.signature_of_mem (List.mem_append_right _ (among.subset member))
  · apply lists.entities_get?_eq_none
    intro old
    exact List.disjoint_of_nodup_append distinct ((earlier.map _).subset old)
      (List.mem_map_of_mem (among.subset member))

theorem gain (lists : before.Lists read lowered) (gains : before.Gains definitions after)
    (among : (lowered ++ definitions).Sublist read) :
    after.Lists read (lowered ++ definitions) where
  signatures := by
    rw [gains.signatures]
    exact lists.signatures
  entities := by
    obtain ⟨entries, same, entered⟩ := gains.entities
    rw [same, gains.id]
    exact List.rel_append lists.entities entered
  distinct := lists.distinct
  among := among
  own := by
    rw [gains.id]
    exact lists.own

theorem finish {frame : Lowering.Frame} (lists : frame.module.Lists read lowered)
    (included : Bool) : (frame.finish included).Lists read lowered :=
  ⟨lists.signatures, lists.entities, lists.distinct, lists.among, lists.own⟩

end Module.Lists

/-- Every module of source text lists the entities of some definitions. -/
def Registry.Listed (registry : Registry) : Prop :=
  ∀ module ∈ registry.registrations, module.runtime = none →
    ∃ read lowered, module.Lists read lowered

namespace Compile

open Lowering

variable {compileIncluded : Includer}

/-- The statements of a file list their definitions behind those that are listed. -/
theorem statements_list {fuel : Nat} {reading : Reading} {bench final : Workbench}
    {read lowered : List EntityDefinition} (waits : Waits compileIncluded)
    (worded : reading.Worded) (lists : bench.frame.module.Lists read lowered)
    (outcome : statements compileIncluded fuel reading bench = .ok () final) :
    final.frame.module.Lists (read ++ definitionsRead (written compileIncluded fuel reading bench))
      (lowered ++ definitionsLowered (written compileIncluded fuel reading bench)) := by
  induction fuel generalizing reading bench read lowered with
  | zero => cases outcome
  | succ fuel ih =>
    rcases statements_cases outcome with
      ⟨after, found, noted⟩ | ⟨stmt, after, later, found, lowers, rest⟩
    · obtain ⟨recorded, -⟩ := Reading.statement_finds (by exact worded) found
      rw [written, found, noted.module]
      exact (lists.noted recorded (by simp)).gain (.none rfl rfl rfl) (by simpa using lists.among)
    · obtain ⟨recorded, belongs⟩ := Reading.statement_belongs (by exact worded) found
      obtain ⟨middle, noted, outcome⟩ := lowerRead_spec lowers
      have listed := lists.noted recorded fun definition member =>
        (belongs (.entity definition) (mem_definitionsIn.mp member)).1
      rw [← noted.module] at listed
      have among : (definitionsIn stmt.reached).Sublist (definitionsIn stmt.within) :=
        stmt.reached_sublist.filterMap _
      have gains := Defines.statement waits stmt middle () later outcome
        (listed.expects lists.among among)
      have whole := ih recorded.worded
        (listed.gain gains (lists.among.append among)) rest
      rw [written, found]
      simp only [lowers]
      rw [definitionsRead_cons, definitionsLowered_cons, ← List.append_assoc, ← List.append_assoc]
      exact whole

theorem body_lists {text : String} {session : Session} {id path : String} {final : Workbench}
    (waits : Waits compileIncluded)
    (outcome : body compileIncluded text ⟨session, Frame.initial id path⟩ = .ok () final) :
    final.frame.module.Lists
      (definitionsRead (writtenIn compileIncluded text ⟨session, Frame.initial id path⟩))
      (definitionsLowered (writtenIn compileIncluded text ⟨session, Frame.initial id path⟩)) := by
  obtain ⟨start, _, worded, lowered, same⟩ := body_cases outcome
  have begin : (Frame.initial id path).module.Lists [] [] := ⟨rfl, .nil, .nil, .refl _, by simp⟩
  rw [same]
  exact statements_list waits worded begin lowered

private theorem listed_stable : Stable Registry.Listed where
  duplicate _ added listed := by
    obtain ⟨target, _, rfl⟩ := Option.map_eq_some_iff.mp added
    exact listed
  recordFile _ _ listed := listed
  runtime id name listed := by
    intro module member isSource
    rcases List.mem_cons.mp member with rfl | earlier
    · cases isSource
    · exact listed module earlier isSource
  compiled _ lowered listed := by
    intro module member isSource
    rcases List.mem_cons.mp member with rfl | earlier
    · exact ⟨_, _, (body_lists (includer_waits _ _ _ _) lowered).finish _⟩
    · exact listed module earlier isSource

/-- The module of a new file lists the signatures of the definitions in its text and the entities of
those that were lowered: each entity has the fields of its signature, and there is an entity to
every signature if and only if no definition stands behind a result.  The same holds of every other
module of source text, and where it holds of all modules without exception, a name that has a
signature has an entity with these fields. -/
theorem entity_tables {waiting : List String} {includedAt : Location} {fuel : Nat}
    {path id source result : String} {session after : Session} {content : ByteArray}
    {text : List Stmt} (located : session.files.absolute path = source)
    (isNew : session.registry.idOfFile? source = none)
    (readable : session.files.stat source = .ok (.file content))
    (listed : session.registry.Listed)
    (outcome : file waiting includedAt (fuel + 1) path id session = .ok result after)
    (isText : statementsOf waiting fuel source (effectiveId source id) content session = text) :
    ∃ module earlier, after.registry.registrations = module :: earlier ∧
      module.Lists (definitionsRead text) (definitionsLowered text) ∧
      (∀ name entity, module.entities.get? name = some entity →
        module.signatures.get? name = some entity.fieldNames ∧
          entity.fieldTypes.length = entity.fieldNames.length) ∧
      (module.Tallies ↔ definitionsLowered text = definitionsRead text) ∧
      after.registry.Listed ∧
      ∀ view, (∀ other ∈ view.module :: after.registry.registrations, other.Tallies) →
        ∀ mangled, after.registry.signature? view mangled =
          (after.registry.entity? view mangled).map (Option.map Entity.fieldNames) := by
  have listedAfter :=
    (listed_stable.file waiting includedAt (fuel + 1) path id).of_ok outcome listed
  have results := file_outcome waiting includedAt fuel path id session
  rw [outcome, located] at results
  cases results with
  | duplicate isBound _ _ =>
    rw [isNew] at isBound
    cases isBound
  | compiled _ isRead lowered =>
    rw [readable] at isRead
    cases isRead
    have lists := (body_lists (includer_waits _ _ _ _) lowered).finish (!waiting.isEmpty)
    rw [← isText]
    refine ⟨_, _, rfl, lists, fun name entity found => ?_, lists.tallies_iff, listedAfter,
      fun view tallies => Registry.signature?_eq tallies⟩
    exact ⟨lists.signature_of_entity found, by simp [Entity.fieldTypes, Entity.fieldNames]⟩

/-- A program that defines one entity at its start and another one behind a result. -/
def unreachedText : String :=
  "Entite P \x7b x: reel \x7d\nfn f() \x7b\nret\nEntite Q \x7b y: reel \x7d\n\x7d\n"

def unreached : Session where
  files := { nodes := ⟨[("/main.krk", .file unreachedText.toUTF8)]⟩ }

/-- The program compiles, and has an entity for the first of its two signatures only. -/
theorem unreached_entity_tables :
    ∃ result after module earlier, file [] {} 2 "main.krk" "" unreached = .ok result after ∧
      after.registry.registrations = module :: earlier ∧ ¬module.Tallies ∧
      module.Lists [⟨1, "Entity.main::P", "P", [("x", .builtin .real)]⟩,
        ⟨4, "Entity.main::Q", "Q", [("y", .builtin .real)]⟩]
        [⟨1, "Entity.main::P", "P", [("x", .builtin .real)]⟩] := by
  have located : unreached.files.absolute "main.krk" = "/main.krk" := rfl
  have isNew : unreached.registry.idOfFile? "/main.krk" = none := rfl
  have readable : unreached.files.stat "/main.krk" = .ok (.file unreachedText.toUTF8) := rfl
  have listed : unreached.registry.Listed := fun _ member => by cases member
  have succeeds : (match file [] {} 2 "main.krk" "" unreached with
      | .ok _ _ => true
      | .error _ _ => false) = true := by
    decide +kernel
  have definitions :
      definitionsRead (statementsOf [] 1 "/main.krk" (effectiveId "/main.krk" "")
        unreachedText.toUTF8 unreached) =
          [⟨1, "Entity.main::P", "P", [("x", .builtin .real)]⟩,
            ⟨4, "Entity.main::Q", "Q", [("y", .builtin .real)]⟩] ∧
      definitionsLowered (statementsOf [] 1 "/main.krk" (effectiveId "/main.krk" "")
        unreachedText.toUTF8 unreached) =
          [⟨1, "Entity.main::P", "P", [("x", .builtin .real)]⟩] := by
    decide +kernel
  cases outcome : file [] {} 2 "main.krk" "" unreached with
  | error failure after =>
    rw [outcome] at succeeds
    cases succeeds
  | ok result after =>
    obtain ⟨module, earlier, registered, lists, -, tallies, -⟩ :=
      entity_tables located isNew readable listed outcome rfl
    rw [definitions.1, definitions.2] at lists tallies
    refine ⟨result, after, module, earlier, rfl, registered, fun agrees => ?_, lists⟩
    cases tallies.mp agrees

end Compile

end Kronk
