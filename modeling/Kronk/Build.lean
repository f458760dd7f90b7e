import Kronk.Compile
import Kronk.Project

/-!
# Builds

A build loads a project, compiles its entry file with everything it includes and writes the code of
every module.  What happens is told to the log, unless the program panics or never ends.
-/

namespace Kronk

/-- What a build is done with: the libraries, and what dumps show. -/
structure Toolbox extends Libraries where
  showProject : Project → String
  showStatement : Source.Stmt → String

/-- How a build is done.  An empty output directory leaves the choice to the project. -/
structure BuildOptions where
  outDirectory : String := ""
  cacheDirectory : String := ""
  upgrade : Bool := false

/-- What a build leaves behind: the files, the log and the paths that were written. -/
structure Build where
  files : FileTree
  log : Log
  artifacts : List String := []

namespace Build

def defaultOutDirectory : String := "build"

/-- Where the code of a project goes: the option counts first, then the manifest. -/
def outDirectory (options : BuildOptions) (project : Project) : String :=
  if options.outDirectory ≠ "" then options.outDirectory
  else if project.outDirectory ≠ "" then project.outDirectory
  else Path.join [project.directory, defaultOutDirectory]

def compile (options : BuildOptions) (project : Project) : Compile (List String) := do
  let _ ← Session.compileEntry project.entry ""
  Session.writeCode (outDirectory options project)

/-- The log after the loading of a project was told. -/
def noted (log : Log) (loader : Loader) : Log :=
  loader.notes.foldl (fun log note => log.trace note.message) log

/-- The session in which a project is compiled. -/
def session (tools : Toolbox) (log : Log) (project : Project) (loader : Loader) : Session :=
  { files := loader.files
    searchPaths := project.searchPaths
    log := (noted log loader).dump "project" (tools.showProject project)
    showStatement := tools.showStatement }

/-- Builds the project at a target.  A failure is recorded in the log, but a fatal one leaves
nothing behind. -/
def run (tools : Toolbox) (files : FileTree) (log : Log) (target : String)
    (options : BuildOptions) : Except Failure Build :=
  match Project.load tools.toLibraries target options.cacheDirectory options.upgrade
      { files := files } with
  | .error failure loader =>
    .ok { files := loader.files, log := (noted log loader).fail failure }
  | .ok project loader =>
    match compile options project (session tools log project loader) with
    | .error failure after =>
      if failure.isFatal then .error failure
      else .ok { files := after.files, log := after.log.fail failure }
    | .ok written after =>
      .ok {
        files := after.files
        log := written.foldl (fun log path => log.info ("wrote " ++ path)) after.log
        artifacts := written }

end Build

end Kronk
