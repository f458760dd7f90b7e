import Mathlib.Data.List.Nodup
import Mathlib.Data.List.Perm.Subperm
import Mathlib.Logic.Relation
import Kronk.Proofs.Compilation

/-!
# Chains of duplicates

An id may be a duplicate of an id that is itself a duplicate.  Looking up a representative ends
exactly if the chain does, and a compilation only ever adds an id that leads to the end of a chain.
So the one way in which a chain can fail to end is an id that was made a duplicate of itself.
-/

namespace Kronk.Registry

/-- Following duplicates from an id passes over `visited` and ends at `root`. -/
inductive Follows (duplicates : Table String) : String → List String → String → Prop where
  | root {id : String} : duplicates.get? id = none → Follows duplicates id [] id
  | step {id next root : String} {visited : List String} :
      duplicates.get? id = some next → Follows duplicates next visited root →
      Follows duplicates id (id :: visited) root

/-- Following duplicates from an id ends at `root`. -/
def LeadsTo (duplicates : Table String) (id root : String) : Prop :=
  ∃ visited, Follows duplicates id visited root

namespace Follows

variable {duplicates : Table String} {id root : String} {visited : List String}

section

variable (follows : Follows duplicates id visited root)

include follows

theorem isRoot : duplicates.get? root = none := by
  induction follows with
  | root isRoot => exact isRoot
  | step _ _ ih => exact ih

theorem unique {other : String} {passed : List String}
    (again : Follows duplicates id passed other) : visited = passed ∧ root = other := by
  induction follows generalizing passed other with
  | root isRoot =>
    cases again with
    | root _ => exact ⟨rfl, rfl⟩
    | step marked _ => simp [isRoot] at marked
  | step marked _ ih =>
    cases again with
    | root isRoot => simp [isRoot] at marked
    | step markedAgain later =>
      rw [marked] at markedAgain
      cases markedAgain
      obtain ⟨rfl, rfl⟩ := ih later
      exact ⟨rfl, rfl⟩

theorem from_visited {passed : String} (member : passed ∈ visited) :
    ∃ later, Follows duplicates passed later root ∧ later.length ≤ visited.length := by
  induction follows with
  | root _ => cases member
  | step marked follows ih =>
    rcases List.mem_cons.mp member with rfl | later
    · exact ⟨_, .step marked follows, Nat.le_refl _⟩
    · obtain ⟨rest, follows, shorter⟩ := ih later
      exact ⟨rest, follows, Nat.le_succ_of_le shorter⟩

/-- A chain that ends passes over no id twice. -/
theorem nodup : visited.Nodup := by
  induction follows with
  | root _ => exact List.nodup_nil
  | @step id next root visited marked follows ih =>
    refine List.nodup_cons.mpr ⟨fun again => ?_, ih⟩
    obtain ⟨later, returns, shorter⟩ := follows.from_visited again
    obtain ⟨rfl, -⟩ := unique (.step marked follows) returns
    exact absurd shorter (by simp)

theorem visited_marked : ∀ passed ∈ visited, ∃ next, duplicates.get? passed = some next := by
  induction follows with
  | root _ =>
    intro passed member
    cases member
  | step marked _ ih =>
    intro passed member
    rcases List.mem_cons.mp member with rfl | later
    · exact ⟨_, marked⟩
    · exact ih passed later

theorem length_le : visited.length ≤ duplicates.entries.length := by
  have covered : visited ⊆ duplicates.entries.map Prod.fst := by
    intro passed member
    obtain ⟨next, marked⟩ := follows.visited_marked passed member
    obtain ⟨before, after, split, -⟩ := List.lookup_eq_some_iff.mp marked
    rw [split]
    simp
  simpa using (follows.nodup.subperm covered).length_le

theorem chase_eq {fuel : Nat}
    (enough : visited.length ≤ fuel) : chase duplicates fuel id = some root := by
  induction follows generalizing fuel with
  | root isRoot => cases fuel <;> simp [chase, Table.contains, isRoot]
  | step marked _ ih =>
    cases fuel with
    | zero => cases enough
    | succ fuel =>
      rw [chase, marked]
      exact ih (Nat.le_of_succ_le_succ enough)

end

end Follows

variable {duplicates : Table String} {id root : String} {registry : Registry}

theorem leadsTo_of_chase {fuel : Nat} (found : chase duplicates fuel id = some root) :
    LeadsTo duplicates id root := by
  induction fuel generalizing id with
  | zero =>
    cases marked : duplicates.get? id with
    | none =>
      simp only [chase, Table.contains, marked] at found
      cases found
      exact ⟨[], .root marked⟩
    | some next => simp [chase, Table.contains, marked] at found
  | succ fuel ih =>
    cases marked : duplicates.get? id with
    | none =>
      simp only [chase, marked] at found
      cases found
      exact ⟨[], .root marked⟩
    | some next =>
      simp only [chase, marked] at found
      obtain ⟨visited, follows⟩ := ih found
      exact ⟨id :: visited, .step marked follows⟩

/-- A representative is found exactly if the chain of duplicates ends there. -/
theorem representative?_eq_some_iff :
    registry.representative? id = some root ↔ LeadsTo registry.duplicates id root := by
  constructor
  · exact leadsTo_of_chase
  · rintro ⟨visited, follows⟩
    exact follows.chase_eq follows.length_le

theorem LeadsTo.isRoot (leads : LeadsTo duplicates id root) : duplicates.get? root = none := by
  obtain ⟨visited, follows⟩ := leads
  exact follows.isRoot

theorem LeadsTo.not_itself (leads : LeadsTo duplicates id root) : duplicates.get? id ≠ some id := by
  intro itself
  obtain ⟨visited, follows⟩ := leads
  cases follows with
  | root isRoot => simp [isRoot] at itself
  | step marked later =>
    rw [itself] at marked
    cases marked
    obtain ⟨same, -⟩ := later.unique (.step itself later)
    exact absurd (congrArg List.length same) (by simp)

/-! ## What a compilation does to the registry -/

/-- One change of the registry during a compilation. -/
inductive Step : Registry → Registry → Prop where
  | register {registry : Registry} (module : Module) : Step registry (registry.register module)
  | record {registry : Registry} {path id : String} :
      registry.idOfFile? path = none → Step registry (registry.recordFile path id)
  | duplicate {registry marked : Registry} {path id first : String} :
      registry.idOfFile? path = some first → registry.addDuplicate? id first = some marked →
      Step registry marked

/-- The registry after any number of changes. -/
abbrev Reaches : Registry → Registry → Prop := Relation.ReflTransGen Step

/-- The chain of duplicates from an id ends, or runs into an id that is a duplicate of itself. -/
inductive Settles (duplicates : Table String) : String → Prop where
  | root {id : String} : duplicates.get? id = none → Settles duplicates id
  | itself {id : String} : duplicates.get? id = some id → Settles duplicates id
  | step {id next : String} :
      duplicates.get? id = some next → Settles duplicates next → Settles duplicates id

/-- A new duplicate of the end of a chain lets every chain settle that settled before. -/
theorem Settles.insert {target other : String} (isRoot : duplicates.get? target = none)
    (settles : Settles duplicates other) : Settles (duplicates.insert id target) other := by
  have marked : (duplicates.insert id target).get? id = some target := by simp
  have settlesHere : Settles (duplicates.insert id target) id := by
    by_cases same : target = id
    · subst same
      exact .itself marked
    · exact .step marked (.root (by simp [same, isRoot]))
  induction settles with
  | @root other isRoot =>
    by_cases here : other = id
    · exact here ▸ settlesHere
    · exact .root (by simp [here, isRoot])
  | @itself other itself =>
    by_cases here : other = id
    · exact here ▸ settlesHere
    · exact .itself (by simp [here, itself])
  | @step other next marked _ ih =>
    by_cases here : other = id
    · exact here ▸ settlesHere
    · exact .step (by simp [here, marked]) ih

theorem Reaches.settles (reaches : Reaches {} registry) (id : String) :
    Settles registry.duplicates id := by
  induction reaches with
  | refl => exact .root rfl
  | tail _ step ih =>
    cases step with
    | register module => exact ih
    | record _ => exact ih
    | duplicate _ marked =>
      obtain ⟨target, found, rfl⟩ := Option.map_eq_some_iff.mp marked
      exact ih.insert (representative?_eq_some_iff.mp found).isRoot

theorem Reaches.files_nodup (reaches : Reaches {} registry) :
    (registry.files.entries.map Prod.fst).Nodup := by
  induction reaches with
  | refl => exact List.nodup_nil
  | tail _ step ih =>
    cases step with
    | register module => exact ih
    | record unbound =>
      rw [recordFile, Table.insert, Table.insertEntry_new unbound, List.map_append]
      refine ih.append (List.nodup_singleton _) ?_
      intro other old new
      obtain ⟨entry, member, rfl⟩ := List.mem_map.mp old
      have different := List.lookup_eq_none_iff.mp unbound entry member
      simp [List.mem_singleton.mp new] at different
    | duplicate _ marked =>
      obtain ⟨target, -, rfl⟩ := Option.map_eq_some_iff.mp marked
      exact ih

theorem Settles.leadsTo (settles : Settles duplicates id)
    (noneItself : ∀ other, duplicates.get? other ≠ some other) :
    ∃ root, LeadsTo duplicates id root := by
  induction settles with
  | @root id isRoot => exact ⟨id, [], .root isRoot⟩
  | itself itself => exact absurd itself (noneItself _)
  | @step id next marked _ ih =>
    obtain ⟨root, visited, follows⟩ := ih
    exact ⟨root, id :: visited, .step marked follows⟩

end Kronk.Registry

namespace Kronk.Compile

open Lowering Registry

def ReachedFrom (start : Registry) (bench : Workbench) : Prop :=
  Reaches start bench.session.registry

/-- Every compilation, also one on the way, takes the registry along steps. -/
theorem reaches_stable (start : Registry) : Stable (Reaches start) where
  duplicate isBound marked reached := reached.tail (.duplicate isBound marked)
  recordFile _ isNew reached := reached.tail (.record isNew)
  runtime _ _ reached := reached.tail (.register _)
  compiled _ _ reached := reached.tail (.register _)

theorem file_reaches (waiting : List String) (includedAt : Location) (fuel : Nat)
    (path id : String) (session : Session) : Reaches session.registry
      (finalState (file waiting includedAt fuel path id session)).registry :=
  ((reaches_stable session.registry).file waiting includedAt fuel path id).final .refl

theorem compileEntry_reaches (path id : String) (session : Session) :
    Reaches session.registry (finalState (Session.compileEntry path id session)).registry := by
  rw [compileEntry_eq]
  exact file_reaches _ _ _ _ _ session

end Kronk.Compile

namespace Kronk.Session

open Compile Registry

/-- A session after any compilations, between which files and search paths may change. -/
inductive Reached : Session → Prop where
  | new {session : Session} : session.registry = {} → Reached session
  | changed {session : Session} (files : FileTree) (searchPaths : List String) (log : Log) :
      Reached session → Reached { session with files, searchPaths, log }
  | compiled {session : Session} (path id : String) :
      Reached session → Reached (finalState (compileEntry path id session))

theorem Reached.reaches {session : Session} (reached : session.Reached) :
    Reaches {} session.registry := by
  induction reached with
  | new isEmpty => rw [isEmpty]
  | changed files searchPaths log _ ih => exact ih
  | compiled path id _ ih =>
    exact ih.trans (compileEntry_reaches path id _)

/-- A file that is compiled again becomes a duplicate of what its first id stands for. -/
theorem compileEntry_again {session : Session} {path id first target : String} {content : ByteArray}
    (readable : session.files.stat (session.files.absolute path) = .ok (.file content))
    (isBound : session.registry.idOfFile? (session.files.absolute path) = some first)
    (found : session.registry.representative? first = some target) :
    (finalState (compileEntry path id session)).registry.duplicates =
      session.registry.duplicates.insert (effectiveId (session.files.absolute path) id) target := by
  have outcome := file_outcome [] {} session.files.files.length path id session
  rw [compileEntry_eq]
  generalize file [] {} (session.files.files.length + 1) path id session = result at outcome ⊢
  cases outcome with
  | missing unreadable => exact absurd readable (unreadable content)
  | circular _ waits => cases waits
  | endless boundAgain endless =>
    rw [isBound] at boundAgain
    cases boundAgain
    simp [addDuplicate?, found] at endless
  | duplicate boundAgain _ marked =>
    rw [isBound] at boundAgain
    cases boundAgain
    simp only [addDuplicate?, found] at marked
    cases marked
    rfl
  | unreadable isNew _ => simp [isBound] at isNew
  | failed isNew _ _ => simp [isBound] at isNew
  | compiled isNew _ _ => simp [isBound] at isNew

end Kronk.Session

namespace Kronk.Registry

private theorem ends_iff_none_itself {registry : Registry} (reaches : Reaches {} registry) :
    (∀ id, ∃ root, registry.representative? id = some root) ↔
      ∀ id, registry.duplicates.get? id ≠ some id := by
  constructor
  · intro ends id
    obtain ⟨root, found⟩ := ends id
    exact (representative?_eq_some_iff.mp found).not_itself
  · intro noneItself id
    obtain ⟨root, leads⟩ := (reaches.settles id).leadsTo noneItself
    exact ⟨root, representative?_eq_some_iff.mpr leads⟩

end Kronk.Registry

namespace Kronk.Session

open Compile Registry

theorem representative?_again_iff {session : Session} {path id first target : String}
    {content : ByteArray}
    (readable : session.files.stat (session.files.absolute path) = .ok (.file content))
    (isBound : session.registry.idOfFile? (session.files.absolute path) = some first)
    (found : session.registry.representative? first = some target) :
    (∃ root, (finalState (compileEntry path id session)).registry.representative?
        (effectiveId (session.files.absolute path) id) = some root) ↔
      target ≠ effectiveId (session.files.absolute path) id := by
  have isRoot := (representative?_eq_some_iff.mp found).isRoot
  simp only [representative?_eq_some_iff, compileEntry_again readable isBound found]
  constructor
  · rintro ⟨root, leads⟩ rfl
    exact leads.not_itself (by simp)
  · intro different
    have ends : LeadsTo (session.registry.duplicates.insert
        (effectiveId (session.files.absolute path) id) target)
        (effectiveId (session.files.absolute path) id) target :=
      ⟨_, .step (by simp) (.root (by simp [different, isRoot]))⟩
    exact ⟨target, ends⟩

/-- The chains of duplicates of every registry on the way of every compilation end at an id that is
no duplicate, exactly if no id was made a duplicate of itself; and a file that is compiled again
under a name makes that name a duplicate of itself exactly if the name is what the first id of the
file stands for. -/
theorem chains_end_iff_none_itself (session : Session) :
    (session.Reached → Reaches {} session.registry) ∧
    (∀ waiting includedAt fuel path id, Reaches session.registry
      (finalState (file waiting includedAt fuel path id session)).registry) ∧
    (∀ registry, Reaches {} registry →
      ((∀ id, ∃ root, registry.representative? id = some root ∧
          registry.duplicates.get? root = none) ↔
        ∀ id, registry.duplicates.get? id ≠ some id)) ∧
    ∀ (path id first target : String) (content : ByteArray),
      session.files.stat (session.files.absolute path) = .ok (.file content) →
      session.registry.idOfFile? (session.files.absolute path) = some first →
      session.registry.representative? first = some target →
      ((∃ root, (finalState (compileEntry path id session)).registry.representative?
          (effectiveId (session.files.absolute path) id) = some root) ↔
        target ≠ effectiveId (session.files.absolute path) id) := by
  refine ⟨fun reached => reached.reaches, ?_, ?_, ?_⟩
  · intro waiting includedAt fuel path id
    exact ((reaches_stable session.registry).file _ _ _ _ _).final .refl
  · intro registry reaches
    rw [← ends_iff_none_itself reaches]
    refine forall_congr' fun id => exists_congr fun root => and_iff_left_of_imp fun found => ?_
    exact (representative?_eq_some_iff.mp found).isRoot
  · intro path id first target content readable isBound found
    exact representative?_again_iff readable isBound found

def mainBound : Session where
  files := { nodes := ⟨[("/main.krk", .file (some ⟨#[]⟩))]⟩ }
  registry := Registry.recordFile {} "/main.krk" "main"

/-- Compiling the same file again makes its id a duplicate of itself. -/
theorem main_again_endless :
    ¬∃ root, (finalState (compileEntry "main.krk" "" mainBound)).registry.representative? "main" =
      some root := by
  have again := (chains_end_iff_none_itself mainBound).2.2.2 "main.krk" "" "main" "main" ⟨#[]⟩
    rfl rfl rfl
  exact fun ends => again.mp ends rfl

end Kronk.Session
