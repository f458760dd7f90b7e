import Kronk.Yaml.Encoding
import Kronk.Yaml.Node
import Kronk.Yaml.Scan

/-!
# From tokens to a document

Only the first document of a text is read.  Every reader takes at least one token or stops, so the
number of tokens bounds the recursion.
-/

namespace Kronk.Yaml

abbrev Compose := StateT (List Token) Option

namespace Compose

def peek : Compose Token := do (← get).head?

def skip : Compose Unit := modify List.tail

/-! ## Nodes -/

def endsEntry : TokenKind → Bool
  | .key => true
  | .value => true
  | .blockEnd => true
  | _ => false

mutual

/-- Reads a node.  In `block` it may be a block, and as an `entry` of a mapping it may be a sequence
whose dashes stand in the column of the keys. -/
def node (block entry : Bool) : (fuel : Nat) → Compose Node
  | 0 => failure
  | fuel + 1 => do
    let token ← peek
    match token.kind, block, entry with
    | .item, _, true => return .sequence token.first (← looseItems fuel)
    | .scalar text plain, _, _ =>
      skip
      return .scalar token.first (if plain then Tag.suggested text else .string) text
    | .listStart, _, _ =>
      skip
      return .sequence token.first (← listItems true fuel)
    | .tableStart, _, _ =>
      skip
      return .mapping token.first (← tableEntries true fuel)
    | .sequenceStart, true, _ =>
      skip
      return .sequence token.first (← blockItems fuel)
    | .mappingStart, true, _ =>
      skip
      return .mapping token.first (← blockEntries fuel)
    | _, _, _ => failure
termination_by structural fuel => fuel

/-- Reads the items of a sequence up to the end of its block. -/
def blockItems : (fuel : Nat) → Compose (List Node)
  | 0 => failure
  | fuel + 1 => do
    let token ← peek
    match token.kind with
    | .item =>
      skip
      let next ← peek
      let item ←
        if next.kind = .item ∨ next.kind = .blockEnd then pure (Node.absent token.last)
        else node true false fuel
      return item :: (← blockItems fuel)
    | .blockEnd =>
      skip
      return []
    | _ => failure
termination_by structural fuel => fuel

/-- Reads the items of a sequence whose dashes stand in the column of the keys around it. -/
def looseItems : (fuel : Nat) → Compose (List Node)
  | 0 => failure
  | fuel + 1 => do
    let token ← peek
    if token.kind = .item then
      skip
      let next ← peek
      let item ←
        if next.kind = .item ∨ endsEntry next.kind then pure (Node.absent token.last)
        else node true false fuel
      return item :: (← looseItems fuel)
    else return []
termination_by structural fuel => fuel

def blockEntries : (fuel : Nat) → Compose (List (Node × Node))
  | 0 => failure
  | fuel + 1 => do
    let token ← peek
    match token.kind with
    | .key =>
      skip
      let key ← blockPart token.last fuel
      let after ← peek
      let value ←
        if after.kind = .value then
          skip
          blockPart after.last fuel
        else pure (Node.absent after.first)
      return (key, value) :: (← blockEntries fuel)
    | .blockEnd =>
      skip
      return []
    | _ => failure
termination_by structural fuel => fuel

/-- Reads a key or a value of a mapping in a block, which may be absent. -/
def blockPart (line : Nat) : (fuel : Nat) → Compose Node
  | 0 => failure
  | fuel + 1 => do
    if endsEntry (← peek).kind then return Node.absent line
    node true true fuel
termination_by structural fuel => fuel

/-- Reads the items of a list up to its closing bracket. -/
def listItems (first : Bool) : (fuel : Nat) → Compose (List Node)
  | 0 => failure
  | fuel + 1 => do
    let token ← peek
    if token.kind = .listEnd then
      skip
      return []
    if !first then
      if token.kind = .comma then skip else failure
    let token ← peek
    if token.kind = .listEnd then
      skip
      return []
    let item ←
      if token.kind = .key then
        skip
        pure (Node.mapping token.first [← listPair fuel])
      else node false false fuel
    return item :: (← listItems false fuel)
termination_by structural fuel => fuel

/-- Reads a pair in a list, which stands for a mapping of its own. -/
def listPair : (fuel : Nat) → Compose (Node × Node)
  | 0 => failure
  | fuel + 1 => do
    let token ← peek
    let key ←
      if token.kind = .value ∨ token.kind = .comma ∨ token.kind = .listEnd then
        skip
        pure (Node.absent token.last)
      else node false false fuel
    let after ← peek
    if after.kind = .value then
      skip
      let next ← peek
      if next.kind = .comma ∨ next.kind = .listEnd then
        return (key, Node.absent after.first)
      return (key, ← node false false fuel)
    return (key, Node.absent after.first)
termination_by structural fuel => fuel

def tableEntries (first : Bool) : (fuel : Nat) → Compose (List (Node × Node))
  | 0 => failure
  | fuel + 1 => do
    let token ← peek
    if token.kind = .tableEnd then
      skip
      return []
    if !first then
      if token.kind = .comma then skip else failure
    let token ← peek
    if token.kind = .tableEnd then
      skip
      return []
    if token.kind = .key then
      skip
      let before ← peek
      let key ←
        if before.kind = .value ∨ before.kind = .comma ∨ before.kind = .tableEnd then
          pure (Node.absent before.first)
        else node false false fuel
      let value ← tableValue fuel
      return (key, value) :: (← tableEntries false fuel)
    else
      let key ← node false false fuel
      let value := Node.absent (← peek).first
      return (key, value) :: (← tableEntries false fuel)
termination_by structural fuel => fuel

def tableValue : (fuel : Nat) → Compose Node
  | 0 => failure
  | fuel + 1 => do
    let token ← peek
    if token.kind = .value then
      skip
      let next ← peek
      if next.kind = .comma ∨ next.kind = .tableEnd then return Node.absent next.first
      node false false fuel
    else return Node.absent token.first
termination_by structural fuel => fuel

end

/-! ## Documents -/

def document (fuel : Nat) : Compose (Option Node) := do
  if (← peek).kind = .streamEnd then return none
  if (← peek).kind = .documentStart then
    skip
    let next ← peek
    if [.documentStart, .documentEnd, .streamEnd].contains next.kind then
      return Node.absent next.first
  return some (← node true false fuel)

end Compose

/-- The first document of a text; an empty text has none, and a malformed one gives no answer. -/
def read (content : List UInt8) : Option (Option Node) := do
  let tokens ← charsOf? content >>= scan
  return (← (Compose.document (3 * tokens.length + 8)).run tokens).1

end Kronk.Yaml
