import Kronk.Main
import Kronk.Source.Program
import Kronk.Token.Record
import Kronk.Proofs.Circularity
import Kronk.Proofs.ModuleIds
import Kronk.Proofs.Precedence
import Kronk.Proofs.Dominance
import Kronk.Proofs.ListAccess
import Kronk.Proofs.Evaluation
import Kronk.Proofs.ExitStatus
import Kronk.Proofs.Machine
import Kronk.Proofs.Demangling
import Kronk.Proofs.Mangling
import Kronk.Proofs.ScalarCode
import Kronk.Proofs.ScalarExpressions
import Kronk.Proofs.ScalarPrograms
import Kronk.Proofs.Roundtrip
import Kronk.Proofs.Courses
import Kronk.Proofs.Nesting
import Kronk.Proofs.Suspension
import Kronk.Proofs.Overlay
import Kronk.Proofs.Independence
import Kronk.Proofs.Aliases
import Kronk.Proofs.SliceBounds
import Kronk.Proofs.OwnStorage
import Kronk.Proofs.Numerals
import Kronk.Proofs.Termination
import Kronk.Proofs.Layouts
import Kronk.Proofs.IncludedFiles
import Kronk.Proofs.Structures
import Kronk.Proofs.Checkouts
