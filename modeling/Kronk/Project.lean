import Kronk.Failure
import Kronk.FileTree
import Kronk.Manifest

/-!
# Projects

A project is a directory with an optional manifest, or a single file in such a directory.  Loading
it finds the entry file, the directories that includes are searched in and the output directory.
How manifests are decoded and how repositories are reached is left to the caller.
-/

namespace Kronk

/-- A note on the way, with how far it has got. -/
structure Progress where
  value : Nat
  message : String
deriving DecidableEq, Repr

/-- What loading has come to: the files, to which fetched repositories are added, and the notes. -/
structure Loader where
  files : FileTree
  notes : List Progress := []

/-- Loading of projects.  The notes survive a failure. -/
abbrev Loading := EStateM Failure Loader

/-- What becomes of a cached repository that is to be updated, with what was said on the way. -/
inductive Pulled where
  | unopened (cause : String)
  | noWorktree (cause : String)
  | upToDate
  | failed (said cause : String)
  | updated (said : String) (files : FileTree)

/-- What projects are loaded with: a decoder of manifests, and a transport that clones a repository
into a directory or updates the one there.  A clone tells what was said on the way, also when it
fails with a cause. -/
structure Libraries where
  decode : List UInt8 → Except String (Option Manifest)
  clone : FileTree → String → Dependency → Except (String × String) (String × FileTree)
  pull : FileTree → String → Dependency → Pulled

/-- What has to be known of a project before it is compiled.  An empty output directory leaves the
choice to the build. -/
structure Project where
  directory : String
  manifest : Manifest
  entry : String
  searchPaths : List String
  outDirectory : String

namespace Project

def manifestName : String := "kronk.yml"

/-- Loads the manifest of a directory; a missing one yields the default. -/
def manifestOf (libraries : Libraries) (files : FileTree) (directory : String) :
    Except Failure Manifest :=
  let path := Path.join [directory, manifestName]
  match files.read path with
  | .ok content =>
    match Manifest.read libraries.decode content.toList with
    | .ok manifest => .ok manifest
    | .error cause =>
      .error (.wrapped ("failed to parse project manifest `" ++ path ++ "`")
        (.plain cause.message))
  | .error failure =>
    if failure.cause = .missing then .ok Manifest.default
    else
      .error (.wrapped ("failed to read project manifest `" ++ path ++ "`")
        (.plain failure.message))

def note (value : Nat) (message : String) : Loading Unit :=
  modify fun loader => { loader with notes := loader.notes ++ [⟨value, message⟩] }

/-- Fetches a repository into a directory. -/
def download (libraries : Libraries) (directory name : String) (dependency : Dependency) :
    Loading Unit := do
  note 0 ("downloading dependency `" ++ name ++ "`")
  match libraries.clone (← get).files directory dependency with
  | .error (said, cause) =>
    throw (.wrapped ("failed to download dependency `" ++ name ++ "`\n" ++ said) (.plain cause))
  | .ok (said, files) =>
    modify fun loader => { loader with files := files }
    note 1 (said ++ "\ndependency `" ++ name ++ "` downloaded")

/-- Brings the repository in a directory up to date. -/
def update (libraries : Libraries) (directory name : String) (dependency : Dependency) :
    Loading Unit := do
  let failed (said cause : String) : Loading Unit :=
    throw (.wrapped ("failed to " ++ said) (.plain cause))
  match libraries.pull (← get).files directory dependency with
  | .unopened cause => failed ("open dependency `" ++ name ++ "`") cause
  | .noWorktree cause => failed ("update dependency `" ++ name ++ "`") cause
  | .upToDate => note 1 ("dependency `" ++ name ++ "` is up to date")
  | .failed said cause => failed ("update dependency `" ++ name ++ "`\n" ++ said) cause
  | .updated said files =>
    modify fun loader => { loader with files := files }
    note 1 (said ++ "\ndependency `" ++ name ++ "` updated")

def localDirectory (directory name : String) (dependency : Dependency) : Loading String := do
  let path :=
    if Path.isAbsolute dependency.path then dependency.path
    else Path.join [directory, dependency.path]
  match (← get).files.stat path with
  | .ok _ => return path
  | .error cause =>
    throw (.wrapped ("dependency `" ++ name ++ "` not found")
      (.plain (FileFailure.mk .stat path cause).message))

/-- The directory of a dependency in the cache.  A dependency at a tag is never updated. -/
def cachedDirectory (libraries : Libraries) (cache : String) (upgrade : Bool) (name : String)
    (dependency : Dependency) : Loading String := do
  let path := Path.join [cache, dependency.directoryName name]
  match (← get).files.stat path with
  | .error .missing => download libraries path name dependency
  | _ => if upgrade && dependency.tag == "" then update libraries path name dependency
  return path

def dependencyDirectories (libraries : Libraries) (directory cache : String) (upgrade : Bool) :
    List (String × Dependency) → Loading (List String)
  | [] => return []
  | (name, dependency) :: rest => do
    let path ←
      if dependency.path ≠ "" then localDirectory directory name dependency
      else cachedDirectory libraries cache upgrade name dependency
    return path :: (← dependencyDirectories libraries directory cache upgrade rest)

/-- Loads the project at a target, which is a directory or a source file. -/
def load (libraries : Libraries) (target cache : String) (upgrade : Bool) : Loading Project := do
  let files := (← get).files
  let path := files.absolute target
  let isFile ←
    match files.stat path with
    | .ok (.file _) => pure true
    | .ok .directory => pure false
    | .error cause =>
      throw (.wrapped ("failed to open `" ++ target ++ "`")
        (.plain (FileFailure.mk .stat path cause).message))
  let directory := if isFile then Path.directory path else path
  let manifest ← MonadExcept.ofExcept (manifestOf libraries files directory)
  let entry := if isFile then path else Path.join [directory, manifest.main]
  let sources := manifest.sources.map (fun source => Path.join [directory, source])
  let dependencies ←
    dependencyDirectories libraries directory cache upgrade manifest.dependencies.sorted
  return {
    directory := directory
    manifest := manifest
    entry := entry
    searchPaths := sources ++ dependencies
    outDirectory := if manifest.out = "" then "" else Path.join [directory, manifest.out] }

end Project

end Kronk
