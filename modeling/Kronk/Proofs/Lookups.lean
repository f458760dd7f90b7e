import Kronk.Registry

/-!
# Lookups that come to no answer

Looking a mangled name up splits the name and follows a chain of duplicates.
The first can run out of bounds, which is a panic, and the second may never
end.  `Stuck` says when: every lookup of such a name comes to no answer, and
every lookup of another name answers.
-/

namespace Kronk

/-- The failure is not for want of fuel, and it is endless only if a chain of duplicates is. -/
structure Failure.HasReason (registry : Registry) (failure : Failure) : Prop where
  fuel : failure ≠ .outOfFuel
  chain : failure = .endless → ∃ id, registry.representative? id = none

theorem Failure.HasReason.atLine {registry : Registry} {kind : ReportKind} {path message : String}
    {line : Nat} : (Failure.atLine kind path line message).HasReason registry :=
  ⟨by rintro ⟨⟩, by rintro ⟨⟩⟩

namespace Registry

/-- A name that cannot be looked up: it is cut out of bounds, or the id of its
module starts a chain that never ends. -/
inductive Stuck (registry : Registry) (mangled : String) : Failure → Prop where
  | outOfBounds {stop : Int} : Name.demangle mangled = .error (.outOfBounds stop) →
      Stuck registry mangled (DemangleError.failure mangled (.outOfBounds stop))
  | endless {parts : NameParts} : Name.demangle mangled = .ok parts →
      registry.representative? parts.module = none → Stuck registry mangled .endless

theorem Stuck.unique {registry : Registry} {mangled : String} {first second : Failure}
    (stuck : Stuck registry mangled first) (again : Stuck registry mangled second) :
    first = second := by
  cases stuck with
  | outOfBounds split =>
    cases again with
    | outOfBounds other =>
      cases split.symm.trans other
      rfl
    | endless other => cases split.symm.trans other
  | endless split =>
    cases again with
    | outOfBounds other => cases split.symm.trans other
    | endless => rfl

theorem Stuck.hasReason {registry : Registry} {mangled : String} {failure : Failure}
    (stuck : Stuck registry mangled failure) : failure.HasReason registry := by
  cases stuck with
  | outOfBounds _ => exact ⟨by rintro ⟨⟩, by rintro ⟨⟩⟩
  | @endless parts _ endless => exact ⟨by rintro ⟨⟩, fun _ => ⟨parts.module, endless⟩⟩

variable {registry : Registry} {view : Viewpoint} {mangled id : String} {parts : NameParts}
  {failure : Failure}

theorem representative_eq_ok_iff {root : String} :
    registry.representative id = .ok root ↔ registry.representative? id = some root := by
  unfold representative
  cases registry.representative? id <;> simp

theorem representative_eq_error_iff : registry.representative id = .error failure ↔
    failure = .endless ∧ registry.representative? id = none := by
  unfold representative
  cases registry.representative? id <;> simp [eq_comm]

theorem parts?_of_split (split : Name.demangle mangled = .ok parts) :
    parts? mangled = .ok (some parts) := by
  simp only [parts?, split]

/-- A name that has no parts is found nowhere; it is canonical. -/
theorem parts?_cases (mangled : String) :
    (∃ parts, Name.demangle mangled = .ok parts ∧ parts? mangled = .ok (some parts)) ∨
    (∃ stop, Name.demangle mangled = .error (.outOfBounds stop) ∧
      parts? mangled = .error (DemangleError.failure mangled (.outOfBounds stop))) ∨
    ((∃ error, Name.demangle mangled = .error error ∧ ∀ stop, error ≠ .outOfBounds stop) ∧
      parts? mangled = .ok none) := by
  unfold parts?
  cases Name.demangle mangled with
  | ok parts => exact .inl ⟨parts, rfl, rfl⟩
  | error error =>
    cases error with
    | outOfBounds stop => exact .inr (.inl ⟨stop, rfl, rfl⟩)
    | _ => exact .inr (.inr ⟨⟨_, rfl, by rintro _ ⟨⟩⟩, rfl⟩)

theorem canonical_of_split (split : Name.demangle mangled = .ok parts) :
    registry.canonical mangled = (registry.representative parts.module).map fun root =>
      if root = parts.module then mangled else Name.mangle parts.kind root parts.symbol := by
  unfold canonical
  simp only [parts?_of_split split, bind, Except.bind]
  cases registry.representative parts.module <;> rfl

/-- The module that an id leads to, and whether it is the one that asks. -/
def seen? (registry : Registry) (view : Viewpoint) (id : String) :
    Except Failure (Option (Module × Bool)) :=
  if id = view.module.id then .ok (some (view.module, true))
  else (registry.representative id).map fun root =>
    (registry.registered? root).map fun module =>
      (module, view.registered && root == view.module.id)

theorem owner?_of_split (split : Name.demangle mangled = .ok parts) :
    registry.owner? view mangled = (registry.seen? view parts.module).map
      (Option.map fun seen => ⟨seen.1, seen.2, parts⟩) := by
  unfold owner? seen?
  simp only [parts?_of_split split, bind, Except.bind]
  split
  · rfl
  · cases registry.representative parts.module with
    | error failure => rfl
    | ok root =>
      simp only [Except.map, Option.map_map]
      rfl

theorem mem_of_owner? {owner : Owner} (found : registry.owner? view mangled = .ok (some owner)) :
    owner.module ∈ view.module :: registry.registrations := by
  obtain ⟨parts, split, -⟩ | ⟨_, _, cut⟩ | ⟨_, none⟩ := parts?_cases mangled
  · rw [owner?_of_split split, seen?] at found
    split at found
    · cases found
      exact List.mem_cons_self
    · cases reached : registry.representative parts.module with
      | error failure => simp [reached, Except.map] at found
      | ok root =>
        simp only [reached, Except.map, Except.ok.injEq, Option.map_map,
          Option.map_eq_some_iff] at found
        obtain ⟨module, isRegistered, rfl⟩ := found
        exact List.mem_cons_of_mem _ (List.mem_of_find?_eq_some isRegistered)
  · rw [owner?, cut] at found
    cases found
  · rw [owner?, none] at found
    cases found

/-- The canonical name is what a lookup needs last. -/
theorem canonical_eq_error_iff :
    registry.canonical mangled = .error failure ↔ Stuck registry mangled failure := by
  obtain ⟨parts, split, -⟩ | ⟨stop, split, cut⟩ | ⟨⟨error, split, noCut⟩, none⟩ :=
    parts?_cases mangled
  · rw [canonical_of_split split]
    constructor
    · intro fails
      cases found : registry.representative parts.module with
      | ok root => simp [found, Except.map] at fails
      | error other =>
        obtain ⟨rfl, endless⟩ := representative_eq_error_iff.mp found
        rw [found] at fails
        cases fails
        exact .endless split endless
    · intro stuck
      cases stuck with
      | outOfBounds cut => cases split.symm.trans cut
      | endless again endless =>
        cases split.symm.trans again
        rw [representative_eq_error_iff.mpr ⟨rfl, endless⟩]
        rfl
  · unfold canonical
    rw [cut]
    constructor
    · rintro ⟨⟩
      exact .outOfBounds split
    · intro stuck
      cases stuck with
      | outOfBounds again =>
        cases split.symm.trans again
        rfl
      | endless again => cases split.symm.trans again
  · unfold canonical
    rw [none]
    constructor
    · rintro ⟨⟩
    · intro stuck
      cases stuck with
      | outOfBounds again =>
        cases split.symm.trans again
        exact absurd rfl (noCut _)
      | endless again => cases split.symm.trans again

theorem seen?_eq_error_iff : registry.seen? view id = .error failure ↔
    id ≠ view.module.id ∧ failure = .endless ∧ registry.representative? id = none := by
  rw [← representative_eq_error_iff]
  unfold seen?
  split
  · next own => simp [own]
  · next other => cases registry.representative id <;> simp [other, Except.map]

/-- Looking for the module of a name comes to no answer only if the name is stuck. -/
theorem stuck_of_owner? (fails : registry.owner? view mangled = .error failure) :
    Stuck registry mangled failure := by
  obtain ⟨parts, split, -⟩ | ⟨stop, split, cut⟩ | ⟨-, none⟩ := parts?_cases mangled
  · rw [owner?_of_split split] at fails
    cases found : registry.seen? view parts.module with
    | ok seen => simp [found, Except.map] at fails
    | error other =>
      obtain ⟨-, rfl, endless⟩ := seen?_eq_error_iff.mp found
      rw [found] at fails
      cases fails
      exact .endless split endless
  · unfold owner? at fails
    rw [cut] at fails
    cases fails
    exact .outOfBounds split
  · unfold owner? at fails
    rw [none] at fails
    cases fails

/-- A stuck name leads to no module but the one that asks, and that only if it is not cut out of
bounds. -/
theorem Stuck.owner?_own (stuck : Stuck registry mangled failure) {found : Option Owner}
    (asked : registry.owner? view mangled = .ok found) :
    failure = .endless ∧ ∃ owner ∈ found, owner.module = view.module := by
  cases stuck with
  | outOfBounds split =>
    unfold owner? parts? at asked
    rw [split] at asked
    cases asked
  | @endless parts split endless =>
    rw [owner?_of_split split] at asked
    by_cases own : parts.module = view.module.id
    · rw [seen?, if_pos own] at asked
      cases asked
      exact ⟨rfl, _, rfl, rfl⟩
    · rw [seen?_eq_error_iff.mpr ⟨own, rfl, endless⟩] at asked
      cases asked

/-- An entry of a module comes to no answer exactly if its name is stuck. -/
theorem lookup?_eq_error_iff {α : Type} {table : Module → Table α} :
    registry.lookup? table view mangled = .error failure ↔ Stuck registry mangled failure := by
  unfold lookup?
  cases asked : registry.owner? view mangled with
  | error other =>
    constructor
    · rintro ⟨⟩
      exact stuck_of_owner? asked
    · intro stuck
      have same := stuck.unique (stuck_of_owner? asked)
      rw [same]
      rfl
  | ok owner? =>
    cases owner? with
    | none =>
      refine ⟨by rintro ⟨⟩, fun stuck => ?_⟩
      obtain ⟨-, owner, absent, -⟩ := stuck.owner?_own asked
      cases absent
    | some owner =>
      rw [← canonical_eq_error_iff]
      cases registry.canonical mangled <;> simp [bind, Except.bind, pure, Except.pure]

/-- A function comes to no answer exactly if its name is stuck.  A runtime module that asks for a
function of its own has no need of a canonical name. -/
theorem function?_eq_error_iff (asks : view.module.runtime = none ∨ failure ≠ .endless) :
    registry.function? view mangled = .error failure ↔ Stuck registry mangled failure := by
  unfold function?
  cases asked : registry.owner? view mangled with
  | error other =>
    constructor
    · rintro ⟨⟩
      exact stuck_of_owner? asked
    · intro stuck
      rw [stuck.unique (stuck_of_owner? asked)]
      rfl
  | ok owner? =>
    constructor
    · intro fails
      cases owner? with
      | none => cases fails
      | some owner =>
        rw [← canonical_eq_error_iff]
        simp only [bind, Except.bind] at fails
        split at fails
        · cases fails
        · cases found : registry.canonical mangled with
          | error other =>
            rw [found] at fails
            cases fails
            rfl
          | ok name =>
            rw [found] at fails
            dsimp only at fails
            split at fails
            · cases fails
            · split at fails <;> cases fails
    · intro stuck
      obtain ⟨isEndless, owner, rfl, own⟩ := stuck.owner?_own asked
      have source := asks.resolve_right fun cut => cut isEndless
      simp only [bind, Except.bind, own, source, canonical_eq_error_iff.mpr stuck]

/-- Looking something up is a panic. -/
def Panics {α : Type} (answer : Except Failure α) : Prop :=
  ∃ message, answer = .error (.panic message)

theorem panics_iff {α : Type} {answer : Except Failure α}
    (stuck : ∀ failure, failure ≠ .endless →
      (answer = .error failure ↔ Stuck registry mangled failure)) :
    Panics answer ↔ ∃ stop, Name.demangle mangled = .error (.outOfBounds stop) := by
  constructor
  · rintro ⟨message, fails⟩
    cases (stuck _ (by rintro ⟨⟩)).mp fails with
    | outOfBounds split => exact ⟨_, split⟩
  · rintro ⟨stop, split⟩
    exact ⟨_, (stuck _ (by rintro ⟨⟩)).mpr (.outOfBounds split)⟩

end Registry

end Kronk
