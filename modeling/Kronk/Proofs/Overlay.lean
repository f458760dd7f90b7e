import Kronk.Proofs.Consulted
import Kronk.Proofs.Duplicates
import Kronk.Proofs.Lookups
import Kronk.Proofs.Mangling
import Kronk.Proofs.Spelling

/-!
# Registries laid over others

A compilation in a session that has compiled before adds to what is there already: its registry is
laid over the old one.  A name whose module the old registry does not know is looked up alike with
and without the old registry underneath.
-/

namespace Kronk

/-! ## Ids that can be read back -/

/-- The id starts with a letter, an underscore or anything else but a digit, and has no colon. -/
structure Name.IsPlain (id : String) : Prop where
  start : ∃ c ∈ id.toList.head?, Decimal.isDigit c = false
  noColon : ':' ∉ id.toList

namespace Name

open Decimal (isDigit)

variable {id : String}

theorem IsPlain.splitScope?_append (plain : IsPlain id) (rest : List Char) :
    splitScope? (id.toList ++ ':' :: ':' :: rest) = some (id.toList, rest) := by
  apply (Name.splitScope?_append id.toList rest).mpr
  rintro ⟨before, after, letters⟩
  -- The first of two colons before the end would stand in the id.
  have colon : ':' ∈ id.toList := by
    have shorter := congrArg List.dropLast letters
    rw [List.dropLast_concat, List.append_assoc, List.cons_append,
      List.dropLast_append_cons, List.cons_append, List.dropLast_cons_cons] at shorter
    rw [← shorter]
    simp
  exact plain.noColon colon

theorem IsPlain.takeWhile (plain : IsPlain id) (rest : List Char) :
    (id.toList ++ rest).takeWhile isDigit = [] := by
  obtain ⟨c, isHead, noDigit⟩ := plain.start
  cases letters : id.toList with
  | nil =>
    rw [letters] at isHead
    cases isHead
  | cons d later =>
    rw [letters] at isHead
    cases isHead
    exact List.takeWhile_cons_of_neg (by simp [noDigit])

/-- A mangled name shows the module that it was made with. -/
theorem module_of_demangle {kind : NameKind} {symbol : String} {parts : NameParts}
    (plain : IsPlain id) (demangled : demangle (mangle kind id symbol) = .ok parts) :
    parts.module = id := by
  cases kind with
  | type =>
    have text : afterMark? typeMark (ofType id symbol).toList =
        some (id.toList ++ ':' :: ':' :: symbol.toList) := by
      have letters : (ofType id symbol).toList =
          typeMark.toList ++ (id.toList ++ ':' :: ':' :: symbol.toList) := by
        simp [ofType, typeSeparator, String.toList_append]
      rw [letters, afterMark?, if_pos (List.isPrefixOf_iff_prefix.mpr (List.prefix_append _ _))]
      rfl
    rw [mangle, demangle, text] at demangled
    simp only [plain.splitScope?_append symbol.toList] at demangled
    cases demangled
    exact String.ofList_toList
  | function =>
    obtain ⟨first, second, readFirst, -, -, isModule, -⟩ :=
      demangle_function (toList_ofFunction id symbol) demangled
    rw [isModule, readSized_sized (plain.takeWhile _) readFirst]
    exact String.ofList_toList

end Name

namespace Registry

/-! ## Known ids -/

/-- The id was given to a module or a file, or was made a duplicate. -/
def Knows (registry : Registry) (id : String) : Prop :=
  (∃ module ∈ registry.registrations, module.id = id) ∨ registry.duplicates.contains id = true ∨
    ∃ path, registry.idOfFile? path = some id

/-- What a registry knows it knows after any change. -/
theorem Step.knows {before after : Registry} (step : Step before after) {id : String}
    (known : before.Knows id) : after.Knows id := by
  cases step with
  | register module =>
    rcases known with ⟨other, member, named⟩ | others
    · exact .inl ⟨other, List.mem_cons_of_mem module member, named⟩
    · exact .inr others
  | @record path bound isNew =>
    rcases known with known | known | ⟨other, isBound⟩
    · exact .inl known
    · exact .inr (.inl known)
    · have different : other ≠ path := by
        rintro rfl
        cases isNew.symm.trans isBound
      refine .inr (.inr ⟨other, ?_⟩)
      simpa [idOfFile?, recordFile, different] using isBound
  | duplicate _ marked =>
    obtain ⟨target, -, rfl⟩ := Option.map_eq_some_iff.mp marked
    rcases known with known | known | known
    · exact .inl known
    · refine .inr (.inl ?_)
      unfold Table.contains at known ⊢
      rw [Table.get?_insert]
      split
      · rfl
      · exact known
    · exact .inr (.inr known)

theorem Reaches.knows {before after : Registry} (reaches : Reaches before after) {id : String}
    (known : before.Knows id) : after.Knows id := by
  induction reaches with
  | refl => exact known
  | tail _ step ih => exact step.knows ih

/-! ## One registry over another -/

/-- The second registry is the first one laid over the old one.  What the first one knows is new to
the old one, and so are the ids that its duplicates stand for. -/
structure Overlays (old first second : Registry) : Prop where
  registrations : second.registrations = first.registrations ++ old.registrations
  duplicates : ∀ id, second.duplicates.get? id =
    (first.duplicates.get? id).or (old.duplicates.get? id)
  files : ∀ path, second.files.get? path = (first.files.get? path).or (old.files.get? path)
  targets : ∀ id target, first.duplicates.get? id = some target → first.Knows target
  apart : ∀ id, first.Knows id → ¬old.Knows id

/-- The name stands for nothing that the old registry knows. -/
def Clear (old : Registry) (name : String) : Prop :=
  ∀ parts, Name.demangle name = .ok parts → ¬old.Knows parts.module

namespace Overlays

variable {old first second : Registry} {id : String}

theorem empty (old : Registry) : Overlays old {} old where
  registrations := rfl
  duplicates _ := rfl
  files _ := rfl
  targets _ _ isDuplicate := by cases isDuplicate
  apart id known := by
    rcases known with ⟨_, member, _⟩ | known | ⟨_, isBound⟩
    · cases member
    · cases known
    · cases isBound

variable (overlays : Overlays old first second)

include overlays

theorem get?_duplicates (new : ¬old.Knows id) :
    second.duplicates.get? id = first.duplicates.get? id := by
  have absent : old.duplicates.get? id = none := by
    refine Option.eq_none_iff_forall_ne_some.mpr fun target isDuplicate => new (.inr (.inl ?_))
    exact Option.isSome_iff_exists.mpr ⟨target, isDuplicate⟩
  rw [overlays.duplicates, absent, Option.or_none]

variable {path : String}

theorem idOfFile?_eq (unbound : old.idOfFile? path = none) :
    second.idOfFile? path = first.idOfFile? path := by
  unfold idOfFile? at unbound ⊢
  rw [overlays.files, unbound, Option.or_none]

/-- A chain of duplicates of new ids stays among new ids. -/
theorem follows_iff (new : ¬old.Knows id) {visited : List String} {root : String} :
    Follows second.duplicates id visited root ↔ Follows first.duplicates id visited root := by
  have newTarget : ∀ id target, first.duplicates.get? id = some target → ¬old.Knows target :=
    fun id target isDuplicate => overlays.apart target (overlays.targets id target isDuplicate)
  constructor
  · intro follows
    induction follows with
    | root isRoot => exact .root (overlays.get?_duplicates new ▸ isRoot)
    | step marked _ ih =>
      rw [overlays.get?_duplicates new] at marked
      exact .step marked (ih (newTarget _ _ marked))
  · intro follows
    induction follows with
    | root isRoot => exact .root ((overlays.get?_duplicates new).trans isRoot)
    | step marked _ ih =>
      exact .step ((overlays.get?_duplicates new).trans marked)
        (ih (newTarget _ _ marked))

theorem representative?_eq (new : ¬old.Knows id) :
    second.representative? id = first.representative? id := by
  refine Option.ext fun root => ?_
  rw [representative?_eq_some_iff, representative?_eq_some_iff]
  exact exists_congr fun _ => overlays.follows_iff new

/-- The representative of an id is the id itself or known as well. -/
theorem representative_cases {root : String}
    (found : first.representative? id = some root) : root = id ∨ first.Knows root := by
  obtain ⟨visited, follows⟩ := representative?_eq_some_iff.mp found
  induction follows with
  | root _ => exact .inl rfl
  | @step id next root visited marked follows ih =>
    have later := ih (representative?_eq_some_iff.mpr ⟨visited, follows⟩)
    exact .inr (later.elim (fun same => same ▸ overlays.targets id next marked) fun known => known)

theorem representative_eq (new : ¬old.Knows id) :
    second.representative id = first.representative id := by
  rw [representative, representative, overlays.representative?_eq new]

theorem registered?_eq {root : String} (new : ¬old.Knows id)
    (found : first.representative? id = some root) :
    second.registered? root = first.registered? root := by
  have isNew : ¬old.Knows root :=
    (overlays.representative_cases found).elim (fun same => same ▸ new) (overlays.apart root)
  have absent : old.registrations.find? (fun module => module.id == root) = none := by
    refine List.find?_eq_none.mpr fun module member named => ?_
    exact isNew (.inl ⟨module, member, beq_iff_eq.mp named⟩)
  unfold registered?
  rw [overlays.registrations, List.find?_append, absent, Option.or_none]

theorem module?_eq (new : ¬old.Knows id) : second.module? id = first.module? id := by
  unfold module?
  rw [overlays.representative_eq new]
  cases found : first.representative id with
  | error failure => rfl
  | ok root =>
    simp only [overlays.registered?_eq new (representative_eq_ok_iff.mp found), bind, Except.bind]

/-- Names that are new to the old registry are looked up alike. -/
theorem agreeOn {name : String} (clear : Clear old name) : AgreeOn name first second := by
  obtain ⟨parts, split, -⟩ | ⟨_, _, cut⟩ | ⟨_, none⟩ := parts?_cases name
  · have new := clear parts split
    constructor
    · intro view
      rw [owner?_of_split split, owner?_of_split split, seen?, seen?,
        overlays.representative_eq new]
      cases found : first.representative parts.module with
      | error failure => rfl
      | ok root =>
        simp only [Except.map, overlays.registered?_eq new (representative_eq_ok_iff.mp found)]
    · rw [canonical_of_split split, canonical_of_split split, overlays.representative_eq new]
  · constructor
    · intro view
      rw [owner?, owner?, cut]
      rfl
    · rw [canonical, canonical, cut]
      rfl
  · constructor
    · intro view
      rw [owner?, owner?, none]
      rfl
    · rw [canonical, canonical, none]
      rfl

/-- A clear name is clear after its module was replaced by its representative. -/
theorem clear_canonical (plain : ∀ id, first.Knows id → Name.IsPlain id) {name found : String}
    (clear : Clear old name) (isCanonical : first.canonical name = .ok found) :
    Clear old found := by
  obtain ⟨parts, split, -⟩ | ⟨_, _, cut⟩ | ⟨_, none⟩ := parts?_cases name
  · rw [canonical_of_split split] at isCanonical
    cases reached : first.representative parts.module with
    | error failure => simp [reached, Except.map] at isCanonical
    | ok root =>
      simp only [reached, Except.map, Except.ok.injEq] at isCanonical
      subst isCanonical
      split
      · exact clear
      · next differs =>
          have known := (overlays.representative_cases
            (representative_eq_ok_iff.mp reached)).resolve_left differs
          intro others isDemangled
          rw [Name.module_of_demangle (plain _ known) isDemangled]
          exact overlays.apart _ known
  · rw [canonical, cut] at isCanonical
    cases isCanonical
  · rw [canonical, none] at isCanonical
    cases isCanonical
    exact clear

/-! ## Changes -/

theorem register (module : Module) (new : ¬old.Knows module.id) :
    Overlays old (first.register module) (second.register module) where
  registrations := by
    rw [Registry.register, Registry.register, overlays.registrations]
    rfl
  duplicates := overlays.duplicates
  files := overlays.files
  targets id target isDuplicate :=
    (Step.register module).knows (overlays.targets id target isDuplicate)
  apart id known := by
    rcases known with ⟨other, member, named⟩ | known
    · rcases List.mem_cons.mp member with rfl | later
      · exact named ▸ new
      · exact overlays.apart id (.inl ⟨other, later, named⟩)
    · exact overlays.apart id (.inr known)

theorem recordFile (unbound : first.idOfFile? path = none) (new : ¬old.Knows id) :
    Overlays old (first.recordFile path id) (second.recordFile path id) where
  registrations := overlays.registrations
  duplicates := overlays.duplicates
  files other := by
    simp only [Registry.recordFile, Table.get?_insert, overlays.files]
    split <;> rfl
  targets other target isDuplicate :=
    (Step.record unbound).knows (overlays.targets other target isDuplicate)
  apart other known := by
    rcases known with known | known | ⟨place, isBound⟩
    · exact overlays.apart other (.inl known)
    · exact overlays.apart other (.inr (.inl known))
    · simp only [idOfFile?, Registry.recordFile, Table.get?_insert] at isBound
      split at isBound
      · cases isBound
        exact new
      · exact overlays.apart other (.inr (.inr ⟨place, isBound⟩))

/-- A duplicate of what a bound id stands for is added in both registries or in none. -/
theorem addDuplicate? {other : String}
    (isBound : first.idOfFile? path = some other) (new : ¬old.Knows id) :
    first.addDuplicate? id other = none ∧ second.addDuplicate? id other = none ∨
      ∃ marked stacked, first.addDuplicate? id other = some marked ∧
        second.addDuplicate? id other = some stacked ∧ Overlays old marked stacked := by
  have known : first.Knows other := .inr (.inr ⟨path, isBound⟩)
  have same := overlays.representative?_eq (overlays.apart other known)
  unfold Registry.addDuplicate?
  rw [same]
  cases found : first.representative? other with
  | none => exact .inl ⟨rfl, rfl⟩
  | some target =>
    have knownTarget : first.Knows target :=
      (overlays.representative_cases found).elim (fun isOther => isOther ▸ known)
        fun isKnown => isKnown
    have step : Step first { first with duplicates := first.duplicates.insert id target } :=
      .duplicate isBound (by rw [Registry.addDuplicate?, found, Option.map_some])
    refine .inr ⟨_, _, rfl, rfl, overlays.registrations, fun other => ?_, overlays.files,
      fun other last isDuplicate => ?_, fun other knows => ?_⟩
    · simp only [Table.get?_insert, overlays.duplicates]
      split <;> rfl
    · rw [Table.get?_insert] at isDuplicate
      split at isDuplicate
      · cases isDuplicate
        exact step.knows knownTarget
      · exact step.knows (overlays.targets other last isDuplicate)
    · rcases knows with knows | knows | knows
      · exact overlays.apart other (.inl knows)
      · unfold Table.contains at knows
        rw [Table.get?_insert] at knows
        split at knows
        · next isId => exact isId ▸ new
        · exact overlays.apart other (.inr (.inl knows))
      · exact overlays.apart other (.inr (.inr knows))

end Overlays

end Registry

end Kronk
