import Kronk.Project
import Kronk.Remote
import Kronk.Yaml.Manifest

/-!
# The libraries of the command

Manifests are documents.  There is no transport: nothing can be fetched, and no cached directory can
be updated.
-/

namespace Kronk

def Libraries.standard : Libraries where
  decode := Yaml.Manifest.decode
  clone _ _ dependency := .error ("", (Remote.fetchError dependency).message)
  pull files directory _ := .unopened (Remote.openError files (files.absolute directory)).message

end Kronk
