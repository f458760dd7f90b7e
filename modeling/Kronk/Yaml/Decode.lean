import Kronk.Text.Literal
import Kronk.Yaml.Node

/-!
# Decoding of documents

A decoder turns a node into a value and notes what does not fit.  Decoding goes on after a problem,
so that all problems of a document are reported in its order.  An absent scalar decodes to nothing
and is no problem.  A merged value that is no mapping ends the decoding at once.
-/

namespace Kronk.Yaml

inductive Problem where
  | unknownField (line : Nat) (field target : String)
  | repeatedField (line : Nat) (field target : String)
  | mismatch (line : Nat) (tag : Tag) (text target : String)
  | repeatedKey (line : Nat) (key : String) (first : Nat)
deriving DecidableEq, Repr

/-- The first `count` bytes of a text; a character that is cut is shown as one replacement
character for each of its bytes that is left. -/
def takeBytes : (count : Nat) → List Char → List Char
  | 0, _ => []
  | _ + 1, [] => []
  | count + 1, c :: rest =>
    if c.utf8Size ≤ count + 1 then c :: takeBytes (count + 1 - c.utf8Size) rest
    else List.replicate (count + 1) Text.replacement

/-- A text as a message shows it: more than ten bytes are cut to seven. -/
def excerpt (text : String) : String :=
  if 10 < text.utf8ByteSize then String.ofList (takeBytes 7 text.toList) ++ "..." else text

def Problem.message : Problem → String
  | unknownField line field target =>
    "line " ++ toString line ++ ": field " ++ field ++ " not found in type " ++ target
  | repeatedField line field target =>
    "line " ++ toString line ++ ": field " ++ field ++ " already set in type " ++ target
  | mismatch line tag text target =>
    let shown := if tag = .sequence ∨ tag = .mapping then "" else " `" ++ excerpt text ++ "`"
    "line " ++ toString line ++ ": cannot unmarshal " ++ tag.text ++ shown ++ " into " ++ target
  | repeatedKey line key first =>
    "line " ++ toString line ++ ": mapping key " ++ Text.literal key ++
      " already defined at line " ++ toString first

abbrev Decoding := StateT (List Problem) (Except String)

namespace Decoding

def note (problem : Problem) : Decoding Unit := modify (· ++ [problem])

/-! ## Keys -/

/-- Whether two keys are the same: of one shape and with one text. -/
def sameKey : Node → Node → Bool
  | .scalar _ _ text, .scalar _ _ other => text == other
  | .sequence _ _, .sequence _ _ => true
  | .mapping _ _, .mapping _ _ => true
  | _, _ => false

def keyText : Node → String
  | .scalar _ _ text => text
  | _ => ""

/-- The keys that come again, each with the line of its first place. -/
def repeatedKeys : List (Node × Node) → List Problem
  | [] => []
  | (key, _) :: rest =>
    let again := (rest.map Prod.fst).filter (sameKey key)
    again.map (fun other => .repeatedKey other.line (keyText other) key.line) ++
      repeatedKeys rest

def distinctKeys (entries : List (Node × Node)) : Decoding Bool := do
  let repeated := repeatedKeys entries
  repeated.forM note
  return repeated.isEmpty

/-! ## Texts -/

/-- The text of a scalar; nothing if it stands for nothing. -/
def scalarText (tag : Tag) (text : String) : Option String :=
  if tag = .null then none else some text

/-- Decodes a text.  Every scalar but the absent one is a text. -/
def string : Node → Decoding (Option String)
  | .scalar _ tag text => return scalarText tag text
  | .sequence line _ => do
    note (.mismatch line .sequence "" "string")
    return none
  | .mapping line entries => do
    if ← distinctKeys entries then note (.mismatch line .mapping "" "string")
    return none

def stringItems : List Node → Decoding (List String)
  | [] => return []
  | item :: rest => do
    let text ← string item
    let later ← stringItems rest
    return text.toList ++ later

/-- Notes that a scalar does not fit a target, unless it stands for nothing. -/
def scalarMismatch (line : Nat) (tag : Tag) (text target : String) : Decoding Unit := do
  if (scalarText tag text).isSome then note (.mismatch line tag text target)

def strings : Node → Decoding (List String)
  | .scalar line tag text => do
    scalarMismatch line tag text "[]string"
    return []
  | .sequence _ items => stringItems items
  | .mapping line entries => do
    if ← distinctKeys entries then note (.mismatch line .mapping "" "[]string")
    return []

/-! ## Mappings -/

def mergedNoMapping : String := "yaml: map merge requires map or sequence of maps as the value"

mutual

/-- The entries that are merged into a mapping, one list for each mapping that is merged. -/
def mergedLayers : List (Node × Node) → Decoding (List (List (Node × Node)))
  | [] => return []
  | (key, value) :: rest => do
    if key.isMerge then return (← mergeLayers value) ++ (← mergedLayers rest)
    mergedLayers rest

/-- The layers of a value that is merged: a mapping, or a sequence of mappings. -/
def mergeLayers : Node → Decoding (List (List (Node × Node)))
  | .sequence _ items => itemLayers items
  | .mapping _ entries => return entries :: (← mergedLayers entries)
  | .scalar _ _ _ => throw mergedNoMapping

def itemLayers : List Node → Decoding (List (List (Node × Node)))
  | [] => return []
  | .mapping _ entries :: rest => do
    return entries :: ((← mergedLayers entries) ++ (← itemLayers rest))
  | _ :: _ => throw mergedNoMapping

end

/-- What a mapping decodes to: how messages name it, which entries it knows, whether an entry can be
given only once, and how an entry is added.  An entry is the mapping's own or merged. -/
structure Shape (α : Type) where
  target : String
  knows : String → Bool
  once : Bool
  entry : (own : Bool) → α → String → Node → Decoding α

/-- The value so far, with the names that are not merged any more; an own layer has none yet. -/
structure Gathered (α : Type) where
  value : α
  taken : Option (List String) := none

def Gathered.isTaken {α : Type} (sofar : Gathered α) (name : String) : Bool :=
  sofar.taken.any (·.contains name)

/-- Decodes the entries of a layer one after another; `done` are the names in it so far.  An entry
without a key is left out. -/
def entries {α : Type} (shape : Shape α) :
    (done : List String) → Gathered α → List (Node × Node) → Decoding (Gathered α)
  | _, sofar, [] => return sofar
  | done, sofar, (key, content) :: rest => do
    if key.isMerge then entries shape done sofar rest
    else
      match ← string key with
      | none => entries shape done sofar rest
      | some name =>
        if sofar.isTaken name then entries shape done sofar rest
        else
          let taken := sofar.taken.map (name :: ·)
          if !shape.knows name then
            note (.unknownField key.line name shape.target)
            entries shape done ⟨sofar.value, taken⟩ rest
          else if shape.once && done.contains name then
            note (.repeatedField key.line name shape.target)
            entries shape done ⟨sofar.value, taken⟩ rest
          else
            let value ← shape.entry sofar.taken.isNone sofar.value name content
            entries shape (name :: done) ⟨value, taken⟩ rest

def merge {α : Type} (shape : Shape α) :
    Gathered α → List (List (Node × Node)) → Decoding (Gathered α)
  | sofar, [] => return sofar
  | sofar, layer :: rest => do
    if ← distinctKeys layer then merge shape (← entries shape [] sofar layer) rest
    else merge shape sofar rest

/-- The name that a key takes from the layers that are merged: only a text is one. -/
def takenName? : Node → Option String
  | .scalar _ .string text => some text
  | .scalar _ .merge text => some text
  | _ => none

/-- Decodes a mapping from `initial` on; the result is absent if the node is no mapping or has a
key twice. -/
def mapping {α : Type} (shape : Shape α) (initial : α) : Node → Decoding (Option α)
  | .scalar line tag text => do
    scalarMismatch line tag text shape.target
    return none
  | .sequence line _ => do
    note (.mismatch line .sequence "" shape.target)
    return none
  | .mapping _ own => do
    if !(← distinctKeys own) then return none
    let first ← entries shape [] ⟨initial, none⟩ own
    let names := own.filterMap (fun entry => takenName? entry.1)
    return some (← merge shape ⟨first.value, some names⟩ (← mergedLayers own)).value

end Decoding

end Kronk.Yaml
