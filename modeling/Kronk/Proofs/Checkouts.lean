import Kronk.Libraries
import Kronk.Proofs.Leads

/-!
# Directories of checkouts

The directory of a dependency in the cache is named by the dependency and the tag or branch that it
asks for.  Two dependencies share a directory exactly if their references differ in slashes and
underscores only, if one asks for a tag and the other for a branch of the same spelling, or if the
name of one ends in an `@` and the start of the reference of the other.  A directory that is there
is used for both.

The main statement is `Dependency.directories_shared_iff`.
-/

namespace Kronk

namespace Dependency

/-- The tag or the branch that is asked for. -/
def reference (dependency : Dependency) : String :=
  if dependency.tag = "" then dependency.branch else dependency.tag

/-- A reference as it stands in a directory name. -/
def spelled (reference : String) : List Char :=
  reference.toList.map fun c => if c = '/' then '_' else c

/-- What follows the name of the dependency in the name of its directory. -/
def suffix (dependency : Dependency) : List Char :=
  if dependency.reference = "" then [] else '@' :: spelled dependency.reference

variable {name other : String} {first second : Dependency}

private theorem toList_directoryName (name : String) (dependency : Dependency) :
    (dependency.directoryName name).toList = name.toList ++ dependency.suffix := by
  change (if dependency.reference = "" then _ else _ : String).toList = _
  unfold suffix
  split <;> simp [spelled, reference]

private theorem suffix_inj : first.suffix = second.suffix ↔
    spelled first.reference = spelled second.reference := by
  unfold suffix
  split <;> split <;> simp_all [spelled]

/-- The name of the second dependency goes on with an `@` and the start of the reference of the
first one, which ends like the directory of the second one. -/
def Overlaps (first : Dependency) (name other : String) (second : Dependency) : Prop :=
  first.reference ≠ "" ∧ ∃ start, other.toList = name.toList ++ '@' :: start ∧
    spelled first.reference = start ++ second.suffix

/-- A longer name goes on like the directory of the other dependency. -/
theorem overlaps_iff : first.Overlaps name other second ↔ ∃ rest ≠ [],
    other.toList = name.toList ++ rest ∧ first.suffix = rest ++ second.suffix := by
  constructor
  · rintro ⟨given, start, longer, spelling⟩
    exact ⟨'@' :: start, List.cons_ne_nil _ _, longer, by simp [suffix, given, spelling]⟩
  · rintro ⟨rest, nonempty, longer, suffixes⟩
    obtain ⟨c, start, rfl⟩ := List.exists_cons_of_ne_nil nonempty
    have given : first.reference ≠ "" := by
      intro empty
      simp [suffix, empty] at suffixes
    rw [suffix, if_neg given] at suffixes
    obtain ⟨rfl, spelling⟩ := List.cons.inj suffixes
    exact ⟨given, start, longer, spelling⟩

/-- Two dependencies are given one directory. -/
theorem directoryName_eq_iff : first.directoryName name = second.directoryName other ↔
    name = other ∧ spelled first.reference = spelled second.reference ∨
      first.Overlaps name other second ∨ second.Overlaps other name first := by
  rw [← String.toList_inj, toList_directoryName, toList_directoryName, overlaps_iff, overlaps_iff,
    List.append_eq_append_iff, ← suffix_inj, ← String.toList_inj]
  constructor
  · rintro (⟨rest, longer, suffixes⟩ | ⟨rest, longer, suffixes⟩) <;>
      by_cases empty : rest = []
    · exact .inl (by simp_all)
    · exact .inr (.inl ⟨rest, empty, longer, suffixes⟩)
    · exact .inl (by simp_all)
    · exact .inr (.inr ⟨rest, empty, longer, suffixes⟩)
  · rintro (⟨sameName, suffixes⟩ | ⟨rest, _, found⟩ | ⟨rest, _, found⟩)
    · exact .inl ⟨[], by simp [sameName], by simp [suffixes]⟩
    · exact .inl ⟨rest, found⟩
    · exact .inr ⟨rest, found⟩

end Dependency

namespace Manifest

private theorem checkDependencies_ok {entries : List (String × Dependency)}
    (checked : checkDependencies entries = .ok ()) :
    ∀ entry ∈ entries, entry.2.tag = "" ∨ entry.2.branch = "" := by
  induction entries with
  | nil => simp
  | cons entry rest ih =>
    rw [checkDependencies] at checked
    split at checked
    · cases checked
    · dsimp only at checked
      split at checked
      · cases checked
      · rename_i _ single
        rintro other (_ | ⟨_, member⟩)
        · exact Classical.or_iff_not_imp_left.mpr (by simpa using single)
        · exact ih checked other member

variable {decode : List UInt8 → Except String (Option Manifest)} {name : String}
  {dependency : Dependency}

/-- A manifest that is read has the dependency. -/
def Accepts (decode : List UInt8 → Except String (Option Manifest)) (name : String)
    (dependency : Dependency) : Prop :=
  ∃ content manifest, read decode content = .ok manifest ∧
    manifest.dependencies.get? name = some dependency

theorem accepts_of_read (content : List UInt8)
    (found : ((read decode content).toOption.bind fun manifest => manifest.dependencies.get? name) =
      some dependency) : Accepts decode name dependency := by
  cases reads : read decode content with
  | error cause =>
    rw [reads] at found
    cases found
  | ok manifest =>
    rw [reads] at found
    exact ⟨content, manifest, reads, found⟩

/-- No dependency of a manifest asks for both a tag and a branch. -/
theorem Accepts.single (accepts : Accepts decode name dependency) :
    dependency.tag = "" ∨ dependency.branch = "" := by
  obtain ⟨content, manifest, reads, listed⟩ := accepts
  unfold read at reads
  split at reads
  · cases reads
  · cases reads
    cases listed
  · rename_i decoded _
    unfold ofDecoded at reads
    cases checked : checkDependencies decoded.dependencies.sorted with
    | error cause =>
      rw [checked] at reads
      cases reads
    | ok =>
      rw [checked] at reads
      have same : manifest.dependencies = decoded.dependencies := by
        have reads : Except.ok (ite _ _ _) = _ := reads
        split at reads <;> cases reads <;> rfl
      rw [same] at listed
      exact checkDependencies_ok checked _ (List.mem_mergeSort.mpr (Table.mem_of_lookup listed))

end Manifest

/-- A directory that is there is used for every dependency that has its name. -/
theorem Project.cachedDirectory_of_present (libraries : Libraries) (cache name : String)
    (dependency : Dependency) (loader : Loader)
    (present : loader.files.stat (Path.join [cache, dependency.directoryName name]) ≠
      .error .missing) :
    cachedDirectory libraries cache false name dependency loader =
      .ok (Path.join [cache, dependency.directoryName name]) loader := by
  unfold cachedDirectory
  simp only [bind, EStateM.bind, get_apply]
  generalize loader.files.stat _ = found at present ⊢
  rcases found with (_ | _) | _
  · contradiction
  all_goals rfl

namespace Dependency

/-- Why different dependencies are given one directory: their references differ in slashes and
underscores only or are a tag and a branch, or one name overlaps with the other reference. -/
def Clash (first : Dependency) (name other : String) (second : Dependency) : Prop :=
  name = other ∧ (first.reference ≠ second.reference ∧
      spelled first.reference = spelled second.reference ∨
    first.tag = second.branch ∧ first.branch = second.tag) ∨
  first.Overlaps name other second ∨ second.Overlaps other name first

/-- Dependencies of manifests that differ in their names, tags or branches are given one directory
exactly if they clash, and what is there is then used for both. -/
theorem directories_shared_iff {name other : String} {first second : Dependency}
    (libraries : Libraries) (accepts : Manifest.Accepts libraries.decode name first)
    (acceptsToo : Manifest.Accepts libraries.decode other second)
    (differ : name ≠ other ∨ first.tag ≠ second.tag ∨ first.branch ≠ second.branch) :
    (first.directoryName name = second.directoryName other ↔ first.Clash name other second) ∧
    (first.Clash name other second → ∀ (cache : String) (loader : Loader),
      loader.files.stat (Path.join [cache, first.directoryName name]) ≠ .error .missing →
      ∃ directory,
        Project.cachedDirectory libraries cache false name first loader = .ok directory loader ∧
        Project.cachedDirectory libraries cache false other second loader =
          .ok directory loader) := by
  have single := accepts.single
  have singleToo := acceptsToo.single
  have shared : first.directoryName name = second.directoryName other ↔
      first.Clash name other second := by
    rw [directoryName_eq_iff, Clash]
    refine or_congr_left (and_congr_right fun sameName => ?_)
    by_cases sameReference : first.reference = second.reference
    · simp only [sameReference]
      grind [reference]
    · grind [reference]
  refine ⟨shared, fun clash cache loader present => ⟨_,
    Project.cachedDirectory_of_present libraries cache name first loader present, ?_⟩⟩
  rw [shared.mpr clash] at present ⊢
  exact Project.cachedDirectory_of_present libraries cache other second loader present

def tagged : Dependency := { git := "maths", tag := "v1.0" }

def branched : Dependency := { git := "maths", branch := "v1.0" }

/-- A checkout of a tag is taken for one of the branch of that name. -/
theorem tagged_shares_branched : Manifest.Accepts Libraries.standard.decode "maths" tagged ∧
    Manifest.Accepts Libraries.standard.decode "maths" branched ∧
    tagged.directoryName "maths" = branched.directoryName "maths" ∧
    ∀ (cache : String) (loader : Loader),
      loader.files.stat (Path.join [cache, "maths@v1.0"]) ≠ .error .missing →
      ∃ directory,
        Project.cachedDirectory Libraries.standard cache false "maths" tagged loader =
          .ok directory loader ∧
        Project.cachedDirectory Libraries.standard cache false "maths" branched loader =
          .ok directory loader := by
  have accepts : Manifest.Accepts Libraries.standard.decode "maths" tagged :=
    Manifest.accepts_of_read "dependencies:\n maths:\n  git: maths\n  tag: v1.0\n".toUTF8.toList
      (by decide +kernel)
  have acceptsToo : Manifest.Accepts Libraries.standard.decode "maths" branched :=
    Manifest.accepts_of_read
      "dependencies:\n maths:\n  git: maths\n  branch: v1.0\n".toUTF8.toList (by decide +kernel)
  have clash : tagged.Clash "maths" "maths" branched := .inl ⟨rfl, .inr ⟨rfl, rfl⟩⟩
  obtain ⟨shared, reused⟩ := directories_shared_iff Libraries.standard accepts acceptsToo
    (.inr (.inl (by decide)))
  exact ⟨accepts, acceptsToo, shared.mpr clash, reused clash⟩

end Dependency

end Kronk
