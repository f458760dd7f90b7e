import Kronk.Proofs.Reading
import Kronk.Source.Stmt

/-!
# What statements define

The statements within a statement, the entities they define, and what it means that a statement
belongs to a module: aliases, functions and entities have words for names, and mangled names are
made with the id of the module.
-/

namespace Kronk.Source

mutual

/-- A statement and all statements in its blocks, in the order of the text. -/
def Stmt.within : Stmt → List Stmt
  | .declaration line name type => [.declaration line name type]
  | .initialisation line name value => [.initialisation line name value]
  | .entity definition => [.entity definition]
  | .function line prototype body => .function line prototype body :: body.within
  | .result line value => [.result line value]
  | .conditional line condition consequent rest =>
    .conditional line condition consequent rest :: (consequent.within ++ rest.within)
  | .loop line condition body => .loop line condition body :: body.within
  | .inclusion written => [.inclusion written]
  | .expression value => [.expression value]

def Block.within : Block → List Stmt
  | .mk _ body => withinAll body

/-- The statements in what follows the first block of a conditional. -/
def Alternative.within : Alternative → List Stmt
  | .absent => []
  | .block body => body.within
  | .conditional _ _ consequent rest => consequent.within ++ rest.within

def withinAll : List Stmt → List Stmt
  | [] => []
  | first :: rest => first.within ++ withinAll rest

end

def definitionsIn (written : List Stmt) : List EntityDefinition :=
  written.filterMap fun
    | .entity definition => some definition
    | _ => none

@[simp] theorem definitionsIn_nil : definitionsIn [] = [] := rfl

@[simp] theorem definitionsIn_append (first second : List Stmt) :
    definitionsIn (first ++ second) = definitionsIn first ++ definitionsIn second :=
  List.filterMap_append

theorem mem_definitionsIn {written : List Stmt} {definition : EntityDefinition} :
    definition ∈ definitionsIn written ↔ .entity definition ∈ written := by
  rw [definitionsIn, List.mem_filterMap]
  constructor
  · rintro ⟨stmt, member, found⟩
    cases stmt <;> cases found
    exact member
  · exact fun member => ⟨_, member, rfl⟩

/-- What is known of an entity before its definition is lowered: its name and those of its
fields. -/
def EntityDefinition.signature (definition : EntityDefinition) : String × List String :=
  (definition.name, definition.fields.map Prod.fst)

/-- A statement as a reader of a module finds it, apart from the statements in its blocks. -/
def Stmt.BelongsTo (module : String) : Stmt → Prop
  | .entity definition =>
    definition.name = Name.ofType module definition.symbol ∧ IsWord definition.symbol
  | .function _ prototype _ =>
    prototype.name = Name.ofFunction module prototype.symbol ∧ IsWord prototype.symbol
  | .inclusion written => IsWord written.id
  | _ => True

/-- The signatures of some entities were added to those known before, and were new. -/
structure Recorded (before : Table (List String)) (definitions : List EntityDefinition)
    (reading : Reading) : Prop where
  worded : reading.Worded
  distinct : (definitions.map EntityDefinition.name).Nodup
  fresh : ∀ definition ∈ definitions, before.contains definition.name = false
  signed : reading.signatures.entries =
    before.entries ++ definitions.map EntityDefinition.signature

theorem lookup_signatures {definitions : List EntityDefinition} {name : String} :
    (definitions.map EntityDefinition.signature).lookup name = none ↔
      name ∉ definitions.map EntityDefinition.name := by
  induction definitions with
  | nil => simp
  | cons definition rest ih =>
    rw [List.map_cons, List.map_cons, List.mem_cons, EntityDefinition.signature, List.lookup_cons]
    by_cases same : name = definition.name
    · simp [same]
    · rw [beq_false_of_ne same, ih, not_or]
      exact (and_iff_right same).symm

namespace Recorded

variable {before : Table (List String)} {definitions : List EntityDefinition} {reading : Reading}

theorem start (worded : reading.Worded) : Recorded reading.signatures [] reading where
  worded := worded
  distinct := List.nodup_nil
  fresh := by simp
  signed := by simp

section

variable (recorded : Recorded before definitions reading)

include recorded

theorem move {token : Token} {passed rest : List Token}
    (split : reading.rest = passed ++ token :: rest) :
    Recorded before definitions { reading with current := token, rest := rest } where
  worded other member := by
    refine recorded.worded other (List.mem_cons_of_mem _ ?_)
    rw [split]
    exact List.mem_append_right _ member
  distinct := recorded.distinct
  fresh := recorded.fresh
  signed := recorded.signed

theorem unknown {name : String} (missing : ¬reading.signatures.contains name = true) :
    before.contains name = false ∧ name ∉ definitions.map EntityDefinition.name := by
  have absent :
      (before.entries ++ definitions.map EntityDefinition.signature).lookup name = none := by
    rw [← recorded.signed]
    exact Table.contains_eq_false_iff.mp (eq_false_of_ne_true missing)
  rw [List.lookup_append, Option.or_eq_none_iff, lookup_signatures] at absent
  exact ⟨Table.contains_eq_false_iff.mpr absent.1, absent.2⟩

theorem sign {definition : EntityDefinition} (unknown : before.contains definition.name = false)
    (absent : definition.name ∉ definitions.map EntityDefinition.name) :
    Recorded before (definitions ++ [definition]) { reading with
        signatures := reading.signatures.insert definition.name (definition.fields.map Prod.fst) }
    where
  worded := recorded.worded
  distinct := by
    rw [List.map_append, List.nodup_append]
    refine ⟨recorded.distinct, by simp, ?_⟩
    intro other member single singleton same
    rw [List.map_singleton, List.mem_singleton] at singleton
    rw [same, singleton] at member
    exact absent member
  fresh := by
    intro other member
    rcases List.mem_append.mp member with old | new
    · exact recorded.fresh other old
    · rw [List.mem_singleton.mp new]
      exact unknown
  signed := by
    have new : reading.signatures.entries.lookup definition.name = none := by
      rw [recorded.signed, List.lookup_append, Option.or_eq_none_iff, lookup_signatures]
      exact ⟨Table.contains_eq_false_iff.mp unknown, absent⟩
    rw [Table.insert, Table.insertEntry_new new, recorded.signed, List.map_append,
      List.append_assoc]
    rfl

theorem trace (messages : List String) :
    Recorded before definitions { reading with trace := messages } :=
  ⟨recorded.worded, recorded.distinct, recorded.fresh, recorded.signed⟩

end

end Recorded

end Kronk.Source
