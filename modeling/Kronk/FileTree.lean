import Kronk.Path
import Kronk.Table

/-!
# A tree of files

The files a compilation can see form a value: directories and files under absolute paths, with a
current directory.  Reading, looking up and writing give the errors an operating system would
give, as causes with one wording each.  Paths are followed element by element, so that `..` leads up
from a directory that is there.
-/

namespace Kronk

/-- What stands at a path.  A file that may not be read shows no content. -/
inductive FileNode where
  | file (content : Option ByteArray)
  | directory

inductive FileError where
  | missing
  | notDirectory
  | isDirectory
  | taken
  | nameTooLong
  | denied
  | unusable
deriving DecidableEq, Repr

def FileError.message : FileError → String
  | .missing => "no such file or directory"
  | .notDirectory => "not a directory"
  | .isDirectory => "is a directory"
  | .taken => "file exists"
  | .nameTooLong => "file name too long"
  | .denied => "permission denied"
  | .unusable => "invalid argument"

inductive FileAction where
  | stat
  | read
  | openFile
  | makeDirectory
deriving DecidableEq, Repr

def FileAction.verb : FileAction → String
  | .stat => "stat"
  | .read => "read"
  | .openFile => "open"
  | .makeDirectory => "mkdir"

structure FileFailure where
  action : FileAction
  path : String
  cause : FileError
deriving DecidableEq, Repr

def FileFailure.message (failure : FileFailure) : String :=
  failure.action.verb ++ " " ++ failure.path ++ ": " ++ failure.cause.message

/-- Files and directories under their clean absolute paths. -/
structure FileTree where
  nodes : Table FileNode := {}
  current : String := "/"

namespace FileTree

/-- The node at a list of elements, reversed; the root is always a directory. -/
def nodeAt? (tree : FileTree) (elements : List (List Char)) : Option FileNode :=
  if elements = [] then some .directory
  else tree.nodes.get? (String.ofList ('/' :: Path.joinElements elements.reverse))

def elementBound : Nat := 255

def pathBound : Nat := 4096

def isTooLong (element : List Char) : Bool :=
  elementBound < (String.ofList element).utf8ByteSize

/-- Walks down from a directory along the elements of a path.  Every place but the last one has to
be a directory. -/
def walk (tree : FileTree) :
    (place : List (List Char)) → List (List Char) → Except FileError (List (List Char))
  | place, [] => .ok place
  | place, element :: rest =>
    match tree.nodeAt? place with
    | none => .error .missing
    | some (.file _) => .error .notDirectory
    | some .directory =>
      if element = [] ∨ element = ['.'] then walk tree place rest
      else if element = ['.', '.'] then walk tree place.tail rest
      else if isTooLong element then .error .nameTooLong
      else walk tree (element :: place) rest

def rooted (tree : FileTree) (path : String) : String :=
  if Path.isAbsolute path then path else tree.current ++ "/" ++ path

/-- The elements of a path seen from the root, if it is one that can be used at all. -/
def elementsOf (tree : FileTree) (path : String) : Except FileError (List (List Char)) :=
  if path.toList.contains '\x00' then .error .unusable
  else if path = "" then .error .missing
  else if pathBound ≤ path.utf8ByteSize then .error .nameTooLong
  else .ok (Path.split (tree.rooted path).toList)

/-- What stands at a path.  Every element but the last must be a directory, and the last one too if
a slash follows it. -/
def stat (tree : FileTree) (path : String) : Except FileError FileNode := do
  let place ← tree.walk [] (← tree.elementsOf path)
  match tree.nodeAt? place with
  | some node => return node
  | none => throw .missing

def hasPath (tree : FileTree) (path : String) : Bool := (tree.stat path).toOption.isSome

def read (tree : FileTree) (path : String) : Except FileFailure ByteArray :=
  match tree.stat path with
  | .ok (.file (some content)) => .ok content
  | .ok (.file none) => .error ⟨.openFile, path, .denied⟩
  | .ok .directory => .error ⟨.read, path, .isDirectory⟩
  | .error cause => .error ⟨.openFile, path, cause⟩

def absolute (tree : FileTree) (path : String) : String := Path.absolute tree.current path

/-- Every directory above the elements of a path, the nearest last. -/
def ancestors : List (List Char) → List (List (List Char))
  | elements => (List.range elements.length).map (fun count => elements.take count)

/-- The tree with a directory under each list of elements that names nothing yet. -/
def addDirectories (tree : FileTree) (places : List (List (List Char))) : FileTree :=
  places.foldl (fun tree place =>
    if (tree.nodeAt? place.reverse).isSome then tree
    else { tree with nodes :=
            tree.nodes.insert (String.ofList ('/' :: Path.joinElements place)) .directory }) tree

def insert (tree : FileTree) (path : String) (node : FileNode) : FileTree :=
  let place := tree.absolute path
  let elements := Path.cleanElements place
  let tree := tree.addDirectories (ancestors elements)
  if elements = [] then tree else { tree with nodes := tree.nodes.insert place node }

/-- The tree with a node at the elements of a place, reversed. -/
def put (tree : FileTree) (place : List (List Char)) (node : FileNode) : FileTree :=
  let path := String.ofList ('/' :: Path.joinElements place.reverse)
  { tree with nodes := tree.nodes.insert path node }

/-- The directory above the last element of a path, with that element.  Slashes after it do not
count. -/
def directoryAbove (tree : FileTree) (elements : List (List Char)) :
    Except FileError (List (List Char) × List Char) := do
  let kept := (elements.reverse.dropWhile (· = [])).reverse
  let place ← tree.walk [] kept.dropLast
  match tree.nodeAt? place with
  | none => throw .missing
  | some (.file _) => throw .notDirectory
  | some .directory => return (place, kept.getLast?.getD [])

def makeDirectory (tree : FileTree) (path : String) : Except FileError FileTree := do
  let (place, name) ← tree.directoryAbove (← tree.elementsOf path)
  if name = [] ∨ name = ['.'] ∨ name = ['.', '.'] then throw .taken
  if isTooLong name then throw .nameTooLong
  if (tree.nodeAt? (name :: place)).isSome then throw .taken
  return tree.put (name :: place) .directory

/-- A path without its last element and the slash before it; slashes after the last element do not
count. -/
def parentPath? (path : String) : Option String :=
  let element := path.toList.reverse.dropWhile (· = '/')
  match element.dropWhile (· ≠ '/') with
  | _ :: c :: rest => some (String.ofList (c :: rest).reverse)
  | _ => none

/-- Makes a directory unless it is there, after the directories above it.  Those that were made
before a failure are kept.  A path is longer than the one above it, so `fuel` is its length. -/
def makeDirectoriesFrom : (fuel : Nat) → (path : String) → EStateM FileFailure FileTree Unit
  | 0, _ => return
  | fuel + 1, path => do
    match (← get).stat path with
    | .ok .directory => return
    | .ok (.file _) => throw ⟨.makeDirectory, path, .notDirectory⟩
    | .error _ =>
      if let some parent := parentPath? path then makeDirectoriesFrom fuel parent
      match (← get).makeDirectory path with
      | .ok tree => set tree
      | .error cause =>
        match (← get).stat path with
        | .ok .directory => return
        | _ => throw ⟨.makeDirectory, path, cause⟩

def makeDirectories (path : String) : EStateM FileFailure FileTree Unit :=
  makeDirectoriesFrom (path.length + 1) path

def write (tree : FileTree) (path : String) (content : ByteArray) : Except FileFailure FileTree :=
  let written : Except FileError FileTree := do
    let elements ← tree.elementsOf path
    let (place, name) ← tree.directoryAbove elements
    if elements.getLast? = some [] ∨ name = ['.'] ∨ name = ['.', '.'] then throw .isDirectory
    if isTooLong name then throw .nameTooLong
    match tree.nodeAt? (name :: place) with
    | some .directory => throw .isDirectory
    | some (.file none) => throw .denied
    | _ => return tree.put (name :: place) (.file (some content))
  match written with
  | .ok tree => .ok tree
  | .error cause => .error ⟨.openFile, path, cause⟩

def files (tree : FileTree) : List String :=
  tree.nodes.sorted.filterMap fun entry =>
    match entry.2 with
    | .file _ => some entry.1
    | .directory => none

end FileTree

end Kronk
