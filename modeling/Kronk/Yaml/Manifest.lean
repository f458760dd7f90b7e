import Kronk.Manifest
import Kronk.Yaml.Decode
import Kronk.Yaml.Document

/-!
# Manifests in documents

A manifest is decoded from a document field by field, and all problems of a document are told.
-/

namespace Kronk.Yaml.Manifest

/-- Decodes a text into a field; an absent one leaves it as it is. -/
def textField {α : Type} (value : α) (set : String → α) (content : Node) : Decoding α := do
  match ← Decoding.string content with
  | some text => return set text
  | none => return value

def dependencyFields : Decoding.Shape Dependency where
  target := "processors.Dependency"
  knows name := ["git", "tag", "branch", "path"].contains name
  once := true
  entry _ dependency name content :=
    match name with
    | "git" => textField dependency ({ dependency with git := · }) content
    | "tag" => textField dependency ({ dependency with tag := · }) content
    | "branch" => textField dependency ({ dependency with branch := · }) content
    | "path" => textField dependency ({ dependency with path := · }) content
    | _ => return dependency

/-- The dependencies of a project under their names.  An absent dependency has empty fields, but one
that is merged replaces none. -/
def dependencyTable : Decoding.Shape (Table Dependency) where
  target := "map[string]processors.Dependency"
  knows _ := true
  once := false
  entry own dependencies name content := do
    match ← Decoding.mapping dependencyFields {} content with
    | some dependency => return dependencies.insert name dependency
    | none =>
      if content.isNull && (own || (dependencies.get? name).isNone) then
        return dependencies.insert name {}
      return dependencies

def fields : Decoding.Shape Kronk.Manifest where
  target := "processors.Manifest"
  knows name := ["name", "version", "main", "sources", "dependencies", "out"].contains name
  once := true
  entry _ manifest name content :=
    match name with
    | "name" => textField manifest ({ manifest with name := · }) content
    | "version" => textField manifest ({ manifest with version := · }) content
    | "main" => textField manifest ({ manifest with main := · }) content
    | "out" => textField manifest ({ manifest with out := · }) content
    | "sources" => return { manifest with sources := ← Decoding.strings content }
    | "dependencies" => do
      let found ← Decoding.mapping dependencyTable {} content
      return { manifest with dependencies := found.getD {} }
    | _ => return manifest

def ofNode (node : Node) : Except String Kronk.Manifest :=
  match (Decoding.mapping fields {} node).run [] with
  | .error fault => .error fault
  | .ok (decoded, []) => .ok (decoded.getD {})
  | .ok (_, found) =>
    .error ("yaml: unmarshal errors:\n  " ++ String.intercalate "\n  " (found.map Problem.message))

/-- Decodes a manifest; there is none in a text without a document, and a malformed text is not told
more closely. -/
def decode (content : List UInt8) : Except String (Option Kronk.Manifest) :=
  match Yaml.read content with
  | none => .error "yaml: malformed document"
  | some none => .ok none
  | some (some node) => (ofNode node).map some

end Kronk.Yaml.Manifest
