import Kronk.Table

/-!
# Project manifests

A manifest names the entry file of a project, where its sources and its output are, and the projects
it depends on.
-/

namespace Kronk

/-- Where a dependency comes from: a repository, at a tag or a branch of it, or a directory.  Fields
that are not given are empty. -/
structure Dependency where
  git : String := ""
  tag : String := ""
  branch : String := ""
  path : String := ""
deriving DecidableEq, Repr

/-- The directory of a dependency in the cache, so that different states of one repository are kept
apart. -/
def Dependency.directoryName (name : String) (dependency : Dependency) : String :=
  let reference := if dependency.tag = "" then dependency.branch else dependency.tag
  if reference = "" then name
  else name ++ "@" ++ String.ofList (reference.toList.map (fun c => if c = '/' then '_' else c))

structure Manifest where
  name : String := ""
  version : String := ""
  main : String := ""
  sources : List String := []
  dependencies : Table Dependency := {}
  out : String := ""

inductive ManifestError where
  | undecodable (message : String)
  | noSource (dependency : String)
  | twoReferences (dependency : String)
deriving DecidableEq, Repr

def ManifestError.message : ManifestError → String
  | undecodable message => message
  | noSource dependency =>
    "dependency `" ++ dependency ++ "` needs exactly one of `git` and `path`"
  | twoReferences dependency =>
    "dependency `" ++ dependency ++ "` cannot have both a tag and a branch"

namespace Manifest

def defaultMain : String := "main.krk"

def default : Manifest := { main := defaultMain }

/-- Checks that every dependency has one source and at most one reference. -/
def checkDependencies : List (String × Dependency) → Except ManifestError Unit
  | [] => return
  | (name, dependency) :: rest => do
    if (dependency.git = "") = (dependency.path = "") then throw (.noSource name)
    if dependency.tag ≠ "" ∧ dependency.branch ≠ "" then throw (.twoReferences name)
    checkDependencies rest

/-- The manifest that was decoded, with every dependency checked and an entry file. -/
def ofDecoded (manifest : Manifest) : Except ManifestError Manifest := do
  checkDependencies manifest.dependencies.sorted
  return if manifest.main = "" then { manifest with main := defaultMain } else manifest

/-- Reads a manifest with a decoder; a text without a document is the default one. -/
def read (decode : List UInt8 → Except String (Option Manifest)) (content : List UInt8) :
    Except ManifestError Manifest :=
  match decode content with
  | .error message => .error (.undecodable message)
  | .ok none => .ok default
  | .ok (some manifest) => ofDecoded manifest

end Manifest

end Kronk
