import Kronk.CommandLine

/-!
# The paths a command can reach

A run of the command is a function of the files it is given.  Which files matter is found step by
step: the target, then its manifest, then the entry file and what it includes.  `Reach.paths` lists
every path that a run can look at, given the files that are known so far.
-/

namespace Kronk.Reach

def leadingPath : List Token → List String
  | ⟨.identifier name, _⟩ :: ⟨.char '.', _⟩ :: rest => name :: leadingPath rest
  | ⟨.identifier name, _⟩ :: _ => [name]
  | _ => []

def includedPaths : List Token → List (List String)
  | [] => []
  | token :: rest =>
    if token.lexeme = .keyword .inclusion then leadingPath rest :: includedPaths rest
    else includedPaths rest

def includeTargets (searchPaths : List String) (file : String) (content : ByteArray) :
    List String :=
  (includedPaths (Token.scan (Text.decode content)).tokens).flatMap
    (Session.includeCandidates searchPaths file)

def allIncludeTargets (files : FileTree) (searchPaths : List String) : List String :=
  files.files.flatMap fun file =>
    match files.read file with
    | .ok content => includeTargets searchPaths file content
    | .error _ => []

/-- The directories that a manifest names, as far as they can be looked at. -/
def dependencyPaths (directory cache : String) (manifest : Manifest) : List String :=
  manifest.dependencies.sorted.flatMap fun entry =>
    let cached := Path.join [cache, entry.2.directoryName entry.1]
    [Path.join [directory, entry.2.path], cached, Path.join [cached, ".git"]]

def ofTarget (libraries : Libraries) (files : FileTree) (cache out target : String) :
    List String :=
  let path := files.absolute target
  let directory :=
    match files.stat path with
    | .ok (.file _) => Path.directory path
    | _ => path
  let manifest := ((Project.manifestOf libraries files directory).toOption).getD Manifest.default
  let dependencies := dependencyPaths directory (files.absolute cache) manifest
  let sources := manifest.sources.map (fun source => Path.join [directory, source])
  let output :=
    if out ≠ "" then files.absolute out
    else if manifest.out ≠ "" then Path.join [directory, manifest.out]
    else Path.join [directory, Build.defaultOutDirectory]
  [path, Path.join [directory, Project.manifestName], Path.join [directory, manifest.main],
    output] ++ dependencies ++ allIncludeTargets files (sources ++ dependencies)

def withAncestors (path : String) : List String :=
  let elements := Path.cleanElements path
  ((FileTree.ancestors elements).drop 1 ++ [elements]).map fun place =>
    String.ofList ('/' :: Path.joinElements place)

/-- The paths that a run of the command can look at, each after the directories above it. -/
def paths (libraries : Libraries) (files : FileTree) (home : String) (arguments : List String) :
    List String :=
  match CommandLine.parse (CommandLine.defaults home) arguments with
  | .ok (options, [target]) =>
    (ofTarget libraries files options.cache options.out target).flatMap withAncestors
  | _ => []

end Kronk.Reach
