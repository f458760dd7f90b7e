import Kronk.FileTree
import Kronk.Log
import Kronk.Registry
import Kronk.Source.Stmt

/-!
# Sessions

A session compiles any number of entry files one after another.  It keeps the files it sees, where
it looks for included ones, the modules it has finished and its log, with the way in which dumps
show a statement.
-/

namespace Kronk

structure Session where
  files : FileTree := {}
  searchPaths : List String := []
  registry : Registry := {}
  log : Log := {}
  showStatement : Source.Stmt → String := fun _ => ""

namespace Session

def trace (session : Session) (message : String) : Session :=
  { session with log := session.log.trace message }

def includedFile (directory : String) (path : List String) : String :=
  Path.join [directory, Path.join path ++ ".krk"]

/-- The files an include path can lead to, in the order in which they are tried: next to the
including file, then in the search paths. -/
def includeCandidates (searchPaths : List String) (includingFile : String) (path : List String) :
    List String :=
  (Path.directory includingFile :: searchPaths).map (fun directory => includedFile directory path)

/-- The file an include path leads to, seen from the including file: the first candidate that is
there.  A path found nowhere is taken relative to the including file. -/
def locateInclude (session : Session) (includingFile : String) (path : List String) : String :=
  ((includeCandidates session.searchPaths includingFile path).find? session.files.hasPath).getD
    (includedFile (Path.directory includingFile) path)

end Session

end Kronk
