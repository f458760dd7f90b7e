import Kronk.Proofs.Demangling
import Kronk.Proofs.Duplicates
import Kronk.Proofs.Lookups

/-!
# Lookups through further ids

A module can be known under further ids.  A name that was mangled with one of them has the canonical
form of the name that was mangled with the id they stand for, and both lead to the same module, with
two exceptions: the module that asks is found under its own id only, and its own id is never
followed.  So as long as a module is not registered, nothing of it is found under a further id.
-/

namespace Kronk.Registry

open Name (mangle ofType ofFunction lengthBound ShowsScope RunsIntoLength)

/-- Names that are mangled with the id are split back. -/
def Splits (id : String) : Prop := ¬ShowsScope id ∧ ¬RunsIntoLength id

instance (id : String) : Decidable (Splits id) := inferInstanceAs (Decidable (_ ∧ _))

theorem Splits.demangle {id symbol : String} (splits : Splits id)
    (isIdentifier : Token.IsIdentifier symbol)
    (fits : (ofFunction id symbol).utf8ByteSize < lengthBound) (kind : NameKind) :
    Name.demangle (mangle kind id symbol) = .ok ⟨kind, id, symbol⟩ := by
  cases kind with
  | type => exact (Name.demangle_ofType id symbol).mpr splits.1
  | function => exact Name.demangle_ofFunction_eq_ok isIdentifier fits splits.2

section Lookups

variable {registry : Registry} {view : Viewpoint} {mangled : String} {parts : NameParts}
  {found : Option (Module × Bool)} {name : String}

section

variable (split : Name.demangle mangled = .ok parts)
  (isSeen : registry.seen? view parts.module = .ok found)
  (isName : registry.canonical mangled = .ok name)

include split isSeen isName

private theorem lookup?_of_split {α : Type} (table : Module → Table α) :
    registry.lookup? table view mangled =
      .ok (found.bind fun seen => (table seen.1).get? name) := by
  unfold lookup?
  rw [owner?_of_split split, isSeen, isName]
  cases found <;> rfl

/-- The function that a module offers under a canonical name and a symbol. -/
def offered? (canonical symbol : String) (seen : Module × Bool) : Option Signature :=
  match seen.1.runtime with
  | some runtime => Catalogue.function? runtime symbol
  | none =>
    match seen.1.functions.get? canonical with
    | some function => some function
    | none =>
      if seen.2 then do
        let runtime ← Catalogue.directModule? symbol
        Catalogue.function? runtime symbol
      else none

private theorem function?_of_split :
    registry.function? view mangled = .ok (found.bind (offered? name parts.symbol)) := by
  unfold function?
  rw [owner?_of_split split, isSeen]
  cases found with
  | none => rfl
  | some seen =>
    simp only [Except.map, Option.map_some, bind, Except.bind, isName, Option.bind_some, offered?]
    cases seen.1.runtime with
    | some runtime => rfl
    | none =>
      cases seen.1.functions.get? name with
      | some function => rfl
      | none => cases seen.2 <;> rfl

end

end Lookups

section Alias

variable {registry : Registry} {view : Viewpoint} {id root symbol : String}

theorem representative_of_leads (leads : registry.representative? id = some root) :
    registry.representative id = .ok root ∧ registry.representative root = .ok root := by
  have isRoot := (representative?_eq_some_iff.mp leads).isRoot
  have again : registry.representative? root = some root :=
    representative?_eq_some_iff.mpr ⟨[], .root isRoot⟩
  exact ⟨representative_eq_ok_iff.mpr leads, representative_eq_ok_iff.mpr again⟩

private theorem canonical_mangle {kind : NameKind} (leads : registry.representative id = .ok root)
    (split : Name.demangle (mangle kind id symbol) = .ok ⟨kind, id, symbol⟩) :
    registry.canonical (mangle kind id symbol) = .ok (mangle kind root symbol) := by
  rw [canonical_of_split split, leads, Except.map]
  split
  · rename_i same
    rw [same]
  · rfl

/-- An id and what it stands for lead to the same module, unless the module that asks goes by one of
them only. -/
theorem seen?_eq (leads : registry.representative? id = some root)
    (apart : id = root ∨ view.module.id ≠ id ∧ (view.module.id = root →
      view.registered = true ∧ registry.registered? root = some view.module)) :
    ∃ found, registry.seen? view id = .ok found ∧ registry.seen? view root = .ok found := by
  obtain ⟨isRoot, isRootAgain⟩ := representative_of_leads leads
  unfold seen?
  rw [isRoot, isRootAgain]
  rcases apart with rfl | ⟨other, known⟩
  · split <;> exact ⟨_, rfl, rfl⟩
  · rw [if_neg (Ne.symm other)]
    by_cases isCurrent : root = view.module.id
    · obtain ⟨isRegistered, found⟩ := known isCurrent.symm
      rw [if_pos isCurrent, Except.map, found, isRegistered]
      exact ⟨_, rfl, by simp [isCurrent]⟩
    · rw [if_neg isCurrent]
      exact ⟨_, rfl, rfl⟩

/-- Nothing is found under a further id of a module that asks before anything is registered under
its id. -/
theorem seen?_eq_none (leads : registry.representative? id = some root) (further : id ≠ root)
    (asks : view.module.id = root) (absent : registry.registered? root = none) :
    registry.seen? view id = .ok none := by
  unfold seen?
  rw [if_neg (asks.symm ▸ further), (representative_of_leads leads).1, Except.map, absent]
  rfl

/-- A name has the canonical form of the name with what its id stands for, which is canonical.  Both
are found alike unless the module that asks goes by the further id, or goes by the other one and is
not registered; in the latter case nothing at all is found under the further id. -/
theorem lookups_through_alias (isIdentifier : Token.IsIdentifier symbol)
    (fits : (ofFunction id symbol).utf8ByteSize < lengthBound)
    (fitsRoot : (ofFunction root symbol).utf8ByteSize < lengthBound)
    (leads : registry.representative? id = some root) (splits : Splits id)
    (splitsRoot : Splits root) (kind : NameKind) :
    (∃ name, registry.canonical (mangle kind id symbol) = .ok name ∧
      registry.canonical (mangle kind root symbol) = .ok name ∧
      registry.canonical name = .ok name) ∧
    ((id = root ∨ view.module.id ≠ id ∧ (view.module.id = root →
        view.registered = true ∧ registry.registered? root = some view.module)) →
      (∃ entity, registry.entity? view (mangle kind id symbol) = .ok entity ∧
        registry.entity? view (mangle kind root symbol) = .ok entity) ∧
      (∃ signature, registry.signature? view (mangle kind id symbol) = .ok signature ∧
        registry.signature? view (mangle kind root symbol) = .ok signature) ∧
      ∃ function, registry.function? view (mangle kind id symbol) = .ok function ∧
        registry.function? view (mangle kind root symbol) = .ok function) ∧
    (id ≠ root → view.module.id = root → registry.registered? root = none →
      registry.entity? view (mangle kind id symbol) = .ok none ∧
      registry.signature? view (mangle kind id symbol) = .ok none ∧
      registry.function? view (mangle kind id symbol) = .ok none) := by
  have split := splits.demangle isIdentifier fits kind
  have splitRoot := splitsRoot.demangle isIdentifier fitsRoot kind
  obtain ⟨isRoot, isRootAgain⟩ := representative_of_leads leads
  have canonical := canonical_mangle isRoot split
  have canonicalRoot := canonical_mangle isRootAgain splitRoot
  refine ⟨⟨_, canonical, canonicalRoot, canonicalRoot⟩, fun apart => ?_,
    fun further asks absent => ?_⟩
  · obtain ⟨found, seen, seenRoot⟩ := seen?_eq leads apart
    have function := function?_of_split split seen canonical
    have functionRoot := function?_of_split splitRoot seenRoot canonicalRoot
    exact ⟨⟨_, lookup?_of_split split seen canonical _,
        lookup?_of_split splitRoot seenRoot canonicalRoot _⟩,
      ⟨_, lookup?_of_split split seen canonical _,
        lookup?_of_split splitRoot seenRoot canonicalRoot _⟩, _, function, functionRoot⟩
  · have seen := seen?_eq_none leads further asks absent
    exact ⟨lookup?_of_split split seen canonical _, lookup?_of_split split seen canonical _,
      function?_of_split split seen canonical⟩

/-- The registry in which `main_l` stands for `main`, before `main` is registered. -/
def furtherMain : Registry := { duplicates := ⟨[("main_l", "main")]⟩ }

def mainWithEntity : Viewpoint where
  module :=
    { id := "main"
      entities := ⟨[("Entity.main::P", ⟨⟨"Entity.main::P", "main", "P"⟩, [("x", .real)]⟩)]⟩ }

/-- The entity is found under the id of its module and not under the further id, although both names
have one canonical form. -/
theorem lookups_through_furtherMain :
    (∃ name, furtherMain.canonical (mangle .type "main_l" "P") = .ok name ∧
      furtherMain.canonical (mangle .type "main" "P") = .ok name) ∧
    (∃ entity, furtherMain.entity? mainWithEntity (mangle .type "main" "P") = .ok (some entity)) ∧
    furtherMain.entity? mainWithEntity (mangle .type "main_l" "P") = .ok none := by
  have isIdentifier : Token.IsIdentifier "P" :=
    Token.isIdentifier_iff.mpr ⟨⟨'P', _, rfl, by decide, by decide⟩, by decide⟩
  have leads : furtherMain.representative? "main_l" = some "main" := by decide
  obtain ⟨⟨name, canonical, canonicalRoot, _⟩, _, absent⟩ := @lookups_through_alias furtherMain
    mainWithEntity "main_l" "main" "P" isIdentifier (by decide) (by decide) leads (by decide)
    (by decide) .type
  exact ⟨⟨name, canonical, canonicalRoot⟩, ⟨_, rfl⟩, (absent (by decide) rfl rfl).1⟩

end Alias

end Kronk.Registry
