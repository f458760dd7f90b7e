import Kronk.Address
import Kronk.FileTree
import Kronk.Manifest

/-!
# Repositories of dependencies

A dependency can name a repository by its address, and a tag or a branch in it.  Without a transport
no repository can be fetched, and no cached directory is one that could be updated; what can be said
is why not.
-/

namespace Kronk

inductive FetchError where
  | separators
  | wildcards
  | malformed (shown : String) (error : AddressError)
  | relative (address : String)
  | unsupported (scheme : String)
deriving DecidableEq, Repr

def FetchError.message : FetchError → String
  | separators => "malformed refspec, separators are wrong"
  | wildcards => "malformed refspec, mismatched number of wildcards"
  | malformed shown error => "parse " ++ shown ++ ": " ++ error.message
  | relative address => "invalid endpoint: " ++ address
  | unsupported scheme => "unsupported scheme " ++ Text.literal scheme

inductive OpenError where
  | file (failure : FileFailure)
  | noPointer
  | noRepository
deriving DecidableEq, Repr

def OpenError.message : OpenError → String
  | file failure => failure.message
  | noPointer => ".git file has no gitdir:  prefix"
  | noRepository => "repository does not exist"

namespace Remote

/-- The characters that separate words in the name of a tag or a branch. -/
def isWordSpace (c : Char) : Bool :=
  (9 ≤ c.toNat && c.toNat ≤ 13) || (0x2000 ≤ c.toNat && c.toNat ≤ 0x200a) ||
    [' ', '\u0085', '\u00a0', '\u1680', '\u2028', '\u2029', '\u202f', '\u205f', '\u3000'].contains c

/-- The first word of the name of a tag or a branch, which is all that is asked for. -/
def firstWord (reference : String) : List Char :=
  (reference.toList.dropWhile isWordSpace).takeWhile (fun c => !isWordSpace c)

/-- What is wrong with the name of a tag or a branch: a colon separates what is asked for from where
it goes, and at most one asterisk stands for any text. -/
def referenceError? (reference : String) : Option FetchError :=
  let word := firstWord reference
  if word.contains ':' then some .separators
  else if 1 < word.count '*' then some .wildcards
  else none

/-- An address as it is stored with a repository, which drops carriage returns. -/
def storedAddress (address : String) : String := String.ofList (address.toList.filter (· ≠ '\r'))

def fetchError (dependency : Dependency) : FetchError :=
  let reference := if dependency.tag = "" then dependency.branch else dependency.tag
  match referenceError? reference with
  | some error => error
  | none =>
    let address := storedAddress dependency.git
    match Address.scheme address with
    | .error (shown, error) => .malformed shown error
    | .ok none => .relative address
    | .ok (some scheme) => .unsupported scheme

def openError (files : FileTree) (directory : String) : OpenError :=
  let inner := Path.join [directory, ".git"]
  match files.stat directory with
  | .error cause => .file ⟨.stat, directory, cause⟩
  | .ok _ =>
    match files.stat inner with
    | .error .missing => .noRepository
    | .error cause => .file ⟨.stat, inner, cause⟩
    | .ok .directory => .noRepository
    | .ok (.file _) =>
      match files.read inner with
      | .error failure => .file failure
      | .ok content =>
        if "gitdir: ".toUTF8.toList.isPrefixOf content.toList then .noRepository else .noPointer

end Remote

end Kronk
