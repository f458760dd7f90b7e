import Kronk.Yaml.Tag

/-!
# Documents in YAML

A document is a tree of scalars, sequences and mappings, each with the line it starts at.
-/

namespace Kronk.Yaml

inductive Node where
  | scalar (line : Nat) (tag : Tag) (text : String)
  | sequence (line : Nat) (items : List Node)
  | mapping (line : Nat) (entries : List (Node × Node))
deriving Repr

namespace Node

def line : Node → Nat
  | scalar line _ _ => line
  | sequence line _ => line
  | mapping line _ => line

def isNull : Node → Bool
  | scalar _ tag _ => tag == .null
  | _ => false

/-- Whether a node is the key of an entry whose value is merged into its mapping. -/
def isMerge : Node → Bool
  | scalar _ tag _ => tag == .merge
  | _ => false

def absent (line : Nat) : Node := .scalar line .null ""

end Node

end Kronk.Yaml
