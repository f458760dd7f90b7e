import Kronk.Lowering.Layout
import Mathlib.Data.Set.Insert

/-!
# Types and their structures

Two types are the same exactly if they are laid out alike.  The types of a module, one after the
other, define one structure for each entity that occurs in them, whose fields are the layouts of the
fields of the entity; an entity that holds itself is there before its fields are looked at.

The main statement is `Lowering.types_laid_alike`.
-/

namespace Kronk

/-- The type is seen from outside all entities. -/
def Ty.IsClosed : Ty → Prop
  | list element => element.IsClosed
  | self => False
  | _ => True

/-- The entity whose structure the layout of the type names. -/
def Ty.entity? : Ty → Option Entity
  | list element => element.entity?
  | entity header fields => some ⟨header, fields⟩
  | _ => none

/-- The entity occurs in the type, at any depth. -/
inductive Entity.OccursIn : Entity → Ty → Prop where
  | here {header : EntityName} {fields : List (String × Ty)} :
      OccursIn ⟨header, fields⟩ (.entity header fields)
  | element {entity : Entity} {type : Ty} : entity.OccursIn type → entity.OccursIn (.list type)
  | field {entity : Entity} {header : EntityName} {fields : List (String × Ty)}
      {field : String × Ty} : field ∈ fields → entity.OccursIn field.2 →
      entity.OccursIn (.entity header fields)

namespace Lowering

/-! ## Layouts -/

/-- The layout of a type, which depends on no draft. -/
def laid (enclosing : String) : Ty → IR.Ty
  | .bool => .i1
  | .real => .double
  | .int => .i64
  | .char => .i8
  | .list element => .record [.i64, .pointer (holding element (laid enclosing element))]
  | .entity header _ => .named header.name
  | .self => .named enclosing

def held (type : Ty) : IR.Ty := holding type (laid "" type)

/-- An entity is laid out by its name; its structure is defined unless it is there. -/
theorem layout_entity (enclosing : String) (header : EntityName) (fields : List (String × Ty))
    (draft : Draft) : layout enclosing (.entity header fields) draft = (.named header.name,
      if (draft.structure? header.name).isSome then draft else
        let inside := fieldLayouts header.name fields (openStructure header.name draft).2
        (closeStructure header.name inside.1 inside.2).2) := by
  rw [layout]
  change (if !(draft.structure? header.name).isSome then _ else _ : Emit IR.Ty) draft = _
  cases (draft.structure? header.name).isSome <;> rfl

theorem layout_fst (enclosing : String) (type : Ty) (draft : Draft) :
    (layout enclosing type draft).1 = laid enclosing type := by
  cases type with
  | list element =>
    have inside := layout_fst enclosing element draft
    simp only [layout, laid, bind, StateT.bind, ← inside]
    rfl
  | entity header fields => rw [layout_entity, laid]
  | _ => rfl

private theorem fieldLayouts_fst (enclosing : String) (fields : List (String × Ty))
    (draft : Draft) :
    (fieldLayouts enclosing fields draft).1 =
      fields.map fun field => holding field.2 (laid enclosing field.2) := by
  induction fields generalizing draft with
  | nil => rfl
  | cons field rest ih =>
    rw [fieldLayouts, List.map_cons, ← ih, ← layout_fst enclosing field.2 draft]
    rfl

private theorem slotLayout_fst (type : Ty) (draft : Draft) :
    (slotLayout type draft).1 = held type :=
  congrArg (holding type) (layout_fst "" type draft)

theorem held_inj {first second : Ty} (closed : first.IsClosed)
    (closedToo : second.IsClosed) :
    held first = held second ↔ laid "" first = laid "" second := by
  cases first <;> cases second <;>
    simp_all [held, holding, Ty.isAggregate, laid, Ty.IsClosed]

/-- Two types are the same if and only if they are laid out alike. -/
theorem same_iff_laid {first second : Ty} (closed : first.IsClosed)
    (closedToo : second.IsClosed) : first.same second = true ↔ laid "" first = laid "" second := by
  cases first with
  | list element =>
    cases second with
    | list other =>
      rw [Ty.same, @same_iff_laid element other closed closedToo,
        ← @held_inj element other closed closedToo]
      simp [laid, held]
    | _ => simp [Ty.same, laid]
  | self => cases closed
  | _ => cases second <;> simp_all [Ty.same, laid, Ty.IsClosed]

/-! ## Structures -/

/-- The structure of an entity: its name and what holds its fields. -/
def structureOf (entity : Entity) : String × List IR.Ty :=
  (entity.header.name, entity.fieldTypes.map held)

/-- A reference of an entity to itself is laid out like the entity. -/
theorem laid_close (entity : Entity) (type : Ty) :
    laid "" (Ty.close entity.type type) = laid entity.header.name type ∧
      (Ty.close entity.type type).isAggregate = type.isAggregate := by
  cases type with
  | list element =>
    obtain ⟨alike, aggregate⟩ := laid_close entity element
    exact ⟨by simp [Ty.close, laid, holding, alike, aggregate], rfl⟩
  | _ => exact ⟨rfl, rfl⟩

private theorem fieldTypes_held (entity : Entity) : entity.fieldTypes.map held =
    entity.fields.map fun field => holding field.2 (laid entity.header.name field.2) := by
  rw [Entity.fieldTypes, List.map_map]
  apply List.map_congr_left
  intro field _
  obtain ⟨alike, aggregate⟩ := laid_close entity field.2
  simp [held, holding, alike, aggregate]

/-- The types add structures to a module: those of entities that occur in them and have none yet.
Afterwards every structure that they or the added structures name is there. -/
structure Adds (types : List Ty) (before after : List (String × List IR.Ty))
    (added : List Entity) : Prop where
  appended : after = before ++ added.map structureOf
  occurring : ∀ entity ∈ added, ∃ type ∈ types, entity.OccursIn type
  fresh : ∀ entity ∈ added, entity.header.name ∉ before.map Prod.fst
  distinct : (added.map (·.header.name)).Nodup
  named : ∀ type ∈ types, ∀ entity, type.entity? = some entity →
    entity.header.name ∈ after.map Prod.fst
  closed : ∀ entity ∈ added, ∀ field ∈ entity.fields, ∀ other, field.2.entity? = some other →
    other.header.name ∈ after.map Prod.fst

namespace Adds

variable {types : List Ty} {type : Ty} {before middle after : List (String × List IR.Ty)}
  {added later : List Entity}

theorem none (present : ∀ entity, type.entity? = some entity →
    entity.header.name ∈ before.map Prod.fst) : Adds [type] before before [] := by
  constructor <;> simp_all

theorem nil : Adds [] before before [] := by
  constructor <;> simp

theorem names (adds : Adds types before after added) :
    after.map Prod.fst = before.map Prod.fst ++ added.map (·.header.name) := by
  simp [adds.appended, structureOf, Function.comp_def]

theorem cons (adds : Adds [type] before middle added) (next : Adds types middle after later) :
    Adds (type :: types) before after (added ++ later) := by
  have former := adds.names
  have latter := next.names
  obtain ⟨rfl, occurring, fresh, distinct, named, closed⟩ := adds
  obtain ⟨rfl, occursLater, freshLater, distinctLater, namedLater, closedLater⟩ := next
  constructor <;> grind

/-- A list adds what its elements add. -/
theorem list (adds : Adds [type] before after added) : Adds [.list type] before after added where
  appended := adds.appended
  occurring entity member := by
    obtain ⟨_, isType, occurs⟩ := adds.occurring entity member
    exact ⟨_, List.mem_singleton_self _, .element (List.mem_singleton.mp isType ▸ occurs)⟩
  fresh := adds.fresh
  distinct := adds.distinct
  named := by simpa [Ty.entity?] using adds.named
  closed := adds.closed

theorem fill_absent {name : String} {filled : String × List IR.Ty}
    (absent : name ∉ before.map Prod.fst) :
    before.map (fun entry => if entry.1 = name then filled else entry) = before := by
  conv_rhs => rw [← List.map_id before]
  apply List.map_congr_left
  intro entry member
  have differs : entry.1 ≠ name := by
    rintro rfl
    exact absent (List.mem_map_of_mem member)
  exact if_neg differs

/-- A new entity is added in front of what its fields add: its structure is there before they are
looked at, and is filled afterwards. -/
theorem entity {entity : Entity} (isNew : entity.header.name ∉ before.map Prod.fst)
    (adds : Adds (entity.fields.map Prod.snd) (before ++ [(entity.header.name, [])]) after added) :
    Adds [entity.type] before (after.map fun entry =>
      if entry.1 = entity.header.name then structureOf entity else entry) (entity :: added) := by
  have others : ∀ inner ∈ added, inner.header.name ∉ before.map Prod.fst ∧
      inner.header.name ≠ entity.header.name := by
    intro inner member
    simpa using adds.fresh inner member
  have absent : entity.header.name ∉ (added.map structureOf).map Prod.fst := by
    simpa [structureOf] using fun inner member => (others inner member).2
  have filled : (after.map fun entry =>
      if entry.1 = entity.header.name then structureOf entity else entry) =
      before ++ (entity :: added).map structureOf := by
    rw [adds.appended, List.map_append, List.map_append, fill_absent isNew, fill_absent absent]
    simp
  have sameNames : (before ++ (entity :: added).map structureOf).map Prod.fst =
      after.map Prod.fst := by
    simp [adds.names, structureOf, Function.comp_def]
  rw [filled]
  constructor
  · rfl
  · rintro inner (_ | ⟨_, member⟩)
    · exact ⟨_, List.mem_singleton_self _, .here⟩
    · obtain ⟨_, isField, occurs⟩ := adds.occurring inner member
      obtain ⟨field, inside, rfl⟩ := List.mem_map.mp isField
      exact ⟨_, List.mem_singleton_self _, .field inside occurs⟩
  · grind
  · have := adds.distinct
    grind [structureOf]
  · simp [Entity.type, Ty.entity?, structureOf]
  · have := adds.named
    have := adds.closed
    grind

end Adds

private theorem structure?_isSome {draft : Draft} {name : String} :
    (draft.structure? name).isSome = true ↔ name ∈ draft.structures.map Prod.fst := by
  rw [Draft.structure?, List.lookup_isSome_iff, List.mem_map]
  simp only [beq_iff_eq, @eq_comm _ name]

mutual

theorem layout_adds (enclosing : String) (type : Ty) (draft : Draft) :
    ∃ added, Adds [type] draft.structures (layout enclosing type draft).2.structures added := by
  cases type with
  | list element =>
    obtain ⟨added, adds⟩ := layout_adds enclosing element draft
    rw [layout]
    exact ⟨added, adds.list⟩
  | entity header fields =>
    rw [layout_entity]
    split
    · exact ⟨[], .none (by simp_all [Ty.entity?, structure?_isSome])⟩
    · have filled : (header.name, (fieldLayouts header.name fields
          (openStructure header.name draft).2).1) = structureOf ⟨header, fields⟩ := by
        rw [fieldLayouts_fst, structureOf, fieldTypes_held]
      obtain ⟨added, adds⟩ := fieldLayouts_adds header.name fields
        (openStructure header.name draft).2
      have whole := @Adds.entity _ _ _ ⟨header, fields⟩ (by simp_all [structure?_isSome]) adds
      rw [← filled] at whole
      exact ⟨_, whole⟩
  | _ => exact ⟨[], .none (by simp [Ty.entity?])⟩

theorem fieldLayouts_adds (enclosing : String) (fields : List (String × Ty)) (draft : Draft) :
    ∃ added, Adds (fields.map Prod.snd) draft.structures
      (fieldLayouts enclosing fields draft).2.structures added := by
  cases fields with
  | nil => exact ⟨[], .nil⟩
  | cons field rest =>
    obtain ⟨first, adds⟩ := layout_adds enclosing field.2 draft
    obtain ⟨later, next⟩ := fieldLayouts_adds enclosing rest (layout enclosing field.2 draft).2
    rw [fieldLayouts]
    exact ⟨_, adds.cons next⟩

end

/-- Types laid out one after the other add their structures. -/
theorem mapM_adds (types : List Ty) (draft : Draft) :
    ∃ added, Adds types draft.structures (types.mapM slotLayout draft).2.structures added := by
  induction types generalizing draft with
  | nil => exact ⟨[], .nil⟩
  | cons type rest ih =>
    obtain ⟨added, adds⟩ := layout_adds "" type draft
    obtain ⟨later, next⟩ := ih (layout "" type draft).2
    rw [List.mapM_cons]
    exact ⟨_, adds.cons next⟩

/-! ## The types of a module -/

/-- Resolved types, seen from outside, in a module where one mangled name stands for one entity. -/
structure AreResolved (types : Set Ty) : Prop where
  closed : ∀ type ∈ types, type.IsClosed
  oneEntity : ∀ entity other : Entity, (∃ type ∈ types, entity.OccursIn type) →
    (∃ type ∈ types, other.OccursIn type) → entity.header.name = other.header.name → entity = other

/-- If the structures that a type names are there, those of all entities that occur in it are. -/
theorem Adds.defined {types : Set Ty} {requests : List Ty} {after : List (String × List IR.Ty)}
    {added : List Entity} (adds : Adds requests [] after added) (resolved : AreResolved types)
    (inside : ∀ type ∈ requests, type ∈ types) {type : Ty} {entity : Entity}
    (occurs : entity.OccursIn type)
    (known : ∀ inner : Entity, inner.OccursIn type → ∃ type ∈ types, inner.OccursIn type)
    (named : ∀ inner, type.entity? = some inner → inner.header.name ∈ after.map Prod.fst) :
    entity ∈ added := by
  have present : ∀ inner : Entity, (∃ type ∈ types, inner.OccursIn type) →
      inner.header.name ∈ after.map Prod.fst → inner ∈ added := by
    intro inner isKnown member
    rw [adds.names] at member
    obtain ⟨other, isAdded, sameName⟩ := List.mem_map.mp member
    obtain ⟨type, isRequest, occurs⟩ := adds.occurring other isAdded
    rwa [resolved.oneEntity inner other isKnown ⟨type, inside type isRequest, occurs⟩ sameName.symm]
  induction occurs with
  | here => exact present _ (known _ .here) (named _ rfl)
  | element occurs ih => exact ih (fun inner occurs => known inner (.element occurs)) named
  | @field _ header fields field member occurs ih =>
    have isAdded := present ⟨header, fields⟩ (known _ .here) (named _ rfl)
    exact ih (fun inner occurs => known inner (.field member occurs))
      (adds.closed _ isAdded field member)

/-- In a module where one mangled name stands for one entity, two types are the same if and only if
they are laid out alike.  Types laid out one after the other define exactly the
structures of the entities that occur in them, each once. -/
theorem types_laid_alike {types : Set Ty} (resolved : AreResolved types) :
    Equivalence (fun first second : types => first.1.same second.1 = true) ∧
    (∀ first ∈ types, ∀ second ∈ types, ∀ draft other : Draft,
      (first.same second = true ↔
        (valueLayout first draft).1 = (valueLayout second other).1 ∧
        (slotLayout first draft).1 = (slotLayout second other).1)) ∧
    ∀ requests : List Ty, (∀ type ∈ requests, type ∈ types) →
      ∀ draft : Draft, draft.structures = [] →
      let structures := (requests.mapM slotLayout draft).2.structures
      (structures.map Prod.fst).Nodup ∧
      ∀ name fields, (name, fields) ∈ structures ↔ ∃ type ∈ requests, ∃ entity : Entity,
        entity.OccursIn type ∧ name = entity.header.name ∧
        fields = entity.fieldTypes.map fun field => (slotLayout field draft).1 := by
  refine ⟨?_, ?_, ?_⟩
  · have isEq : (fun first second : types => first.1.same second.1 = true) =
        Function.onFun Eq fun type : types => laid "" type.1 := by
      funext first second
      exact propext (same_iff_laid (resolved.closed _ first.2) (resolved.closed _ second.2))
    rw [isEq]
    exact eq_equivalence.comap _
  · intro first isFirst second isSecond draft other
    have closed := resolved.closed first isFirst
    have closedToo := resolved.closed second isSecond
    rw [slotLayout_fst, slotLayout_fst, valueLayout, valueLayout, layout_fst, layout_fst,
      held_inj closed closedToo, same_iff_laid closed closedToo, and_self]
  · intro requests inside draft empty structures
    obtain ⟨added, adds⟩ := mapM_adds requests draft
    rw [empty] at adds
    refine ⟨by simpa [structures, adds.names] using adds.distinct, fun name fields => ?_⟩
    have listed : structures = added.map structureOf := adds.appended
    simp only [slotLayout_fst, listed, List.mem_map]
    constructor
    · rintro ⟨entity, isAdded, ⟨⟩⟩
      obtain ⟨type, isRequest, occurs⟩ := adds.occurring entity isAdded
      exact ⟨type, isRequest, entity, occurs, rfl, rfl⟩
    · rintro ⟨type, isRequest, entity, occurs, rfl, rfl⟩
      exact ⟨entity, adds.defined resolved inside occurs
        (fun _ occurs => ⟨type, inside type isRequest, occurs⟩) (adds.named type isRequest), rfl⟩

/-- An entity that holds itself and a list of itself. -/
def linked : Entity :=
  ⟨⟨"Entity.main::N", "main", "N"⟩, [("value", .real), ("next", .self), ("all", .list .self)]⟩

private theorem occursIn_linked {entity : Entity} (occurs : entity.OccursIn linked.type) :
    entity = linked := by
  cases occurs with
  | here => rfl
  | field inside occurs =>
    have inside : _ ∈ [("value", Ty.real), ("next", .self), ("all", .list .self)] := inside
    simp only [List.mem_cons, List.not_mem_nil, or_false] at inside
    rcases inside with rfl | rfl | rfl <;> rcases occurs with _ | ⟨⟨⟩⟩

theorem linked_laid_alike : AreResolved {linked.type, .list linked.type} ∧
    let structures := ([.list linked.type, linked.type].mapM slotLayout ({} : Draft)).2.structures
    (structures.map Prod.fst).Nodup ∧
      (linked.header.name, linked.fieldTypes.map fun field => (slotLayout field {}).1) ∈
        structures := by
  have resolved : AreResolved {linked.type, .list linked.type} := by
    have only : ∀ entity : Entity, (∃ type ∈ ({linked.type, .list linked.type} : Set Ty),
        entity.OccursIn type) → entity = linked := by
      rintro entity ⟨_, rfl | rfl, occurs⟩
      · exact occursIn_linked occurs
      · cases occurs with
        | element occurs => exact occursIn_linked occurs
    constructor
    · rintro _ (rfl | rfl) <;> trivial
    · intro entity other occurs occursToo _
      rw [only entity occurs, only other occursToo]
  obtain ⟨_, _, laidOut⟩ := types_laid_alike resolved
  obtain ⟨once, defined⟩ := laidOut [.list linked.type, linked.type] (by simp) {} rfl
  exact ⟨resolved, once, (defined _ _).mpr ⟨linked.type, by simp, linked, .here, rfl, rfl⟩⟩

end Lowering

end Kronk
