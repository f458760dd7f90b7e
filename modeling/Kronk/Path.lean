/-!
# Slash-separated paths

Paths are texts with `/` between their elements.  `clean` gives the shortest spelling of a path
that names the same place: no empty elements, no `.`, and no `..` that a preceding element or the
root absorbs.
-/

namespace Kronk.Path

/-- The text between slashes, empty elements included. -/
def split : List Char → List (List Char)
  | [] => [[]]
  | c :: rest =>
    if c = '/' then [] :: split rest
    else
      match split rest with
      | [] => [[c]]
      | element :: later => (c :: element) :: later

def joinElements : List (List Char) → List Char
  | [] => []
  | [element] => element
  | element :: later => element ++ '/' :: joinElements later

def isAbsolute (path : String) : Bool := path.toList.head? == some '/'

/-- Adds an element to the reversed elements of a clean path. -/
def pushElement (rooted : Bool) (stack : List (List Char)) (element : List Char) :
    List (List Char) :=
  if element = [] ∨ element = ['.'] then stack
  else if element = ['.', '.'] then
    match stack with
    | [] => if rooted then [] else [element]
    | top :: below => if top = ['.', '.'] then element :: top :: below else below
  else element :: stack

def cleanElements (path : String) : List (List Char) :=
  ((split path.toList).foldl (pushElement (isAbsolute path)) []).reverse

/-- The shortest spelling of a path; the empty path is `.`. -/
def clean (path : String) : String :=
  let elements := cleanElements path
  if isAbsolute path then String.ofList ('/' :: joinElements elements)
  else if elements = [] then "."
  else String.ofList (joinElements elements)

/-- Joins paths and cleans the result; empty paths are left out. -/
def join (paths : List String) : String :=
  match paths.filter (· ≠ "") with
  | [] => ""
  | present => clean (String.intercalate "/" present)

def base (path : String) : String :=
  if path = "" then "."
  else
    let trimmed := (path.toList.reverse.dropWhile (· = '/')).reverse
    if trimmed = [] then "/"
    else String.ofList ((trimmed.reverse.takeWhile (· ≠ '/')).reverse)

def directory (path : String) : String :=
  clean (String.ofList (path.toList.reverse.dropWhile (· ≠ '/')).reverse)

/-- The last element of a path from its last point on, or nothing. -/
def extension (path : String) : String :=
  let last := path.toList.reverse.takeWhile (· ≠ '/')
  if '.' ∈ last then String.ofList ('.' :: (last.takeWhile (· ≠ '.')).reverse) else ""

def stem (path : String) : String :=
  let name := (base path).toList
  let ending := (extension path).toList
  if ending.isSuffixOf name then String.ofList (name.take (name.length - ending.length))
  else String.ofList name

def absolute (current path : String) : String :=
  if isAbsolute path then clean path else join [current, path]

end Kronk.Path
