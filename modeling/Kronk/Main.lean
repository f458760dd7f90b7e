import Kronk.Libraries
import Kronk.Reach

/-!
# The command

The outer layer: it loads the files that the command can reach, runs the command and writes what
has changed.
-/

open Kronk

/-- Adds what stands at a path of the disk.  What cannot be read as a file is a directory. -/
def loadNode (tree : FileTree) (path : String) : IO FileTree := do
  match tree.stat path with
  | .error .missing =>
    try
      return tree.insert path (.file (some (← IO.FS.readBinFile path)))
    catch error =>
      match error with
      | .inappropriateType .. => return tree.insert path .directory
      | .permissionDenied .. => return tree.insert path (.file none)
      | _ => return tree
  | _ => return tree

/-- The tools of the command; dumps show a title only. -/
def tools : Toolbox :=
  { Libraries.standard with showProject := fun _ => "", showStatement := fun _ => "" }

/-- What a run comes to.  A run that never ends is waited for. -/
partial def await (outcome : Option CommandLine.Outcome) : IO CommandLine.Outcome :=
  match outcome with
  | some outcome => return outcome
  | none => await none

/-- Loads the paths that can be reached until nothing new is found. -/
partial def loadReach (home : String) (arguments asked : List String) (tree : FileTree) :
    IO FileTree := do
  let reached := (Reach.paths Libraries.standard tree home arguments).eraseDups
  let wanted := reached.filter (fun path => !asked.contains path)
  if wanted.isEmpty then return tree
  loadReach home arguments (asked ++ wanted) (← wanted.foldlM loadNode tree)

def writeChanged (before after : FileTree) (path : String) : IO Unit := do
  match before.read path, after.read path with
  | .ok old, .ok new => if old != new then IO.FS.writeBinFile path new
  | .error _, .ok new =>
    IO.FS.createDirAll (Path.directory path)
    IO.FS.writeBinFile path new
  | _, _ => return

def main (arguments : List String) : IO UInt32 := do
  let home := (← IO.getEnv "HOME").getD ""
  let current := (← IO.currentDir).toString
  let start := ({ current := current } : FileTree).insert current .directory
  let files ← loadReach home arguments [] start
  let outcome ← await (CommandLine.run tools files home arguments)
  outcome.files.files.forM (writeChanged files outcome.files)
  IO.print outcome.output
  IO.eprint outcome.complaint
  return outcome.status.toUInt32
