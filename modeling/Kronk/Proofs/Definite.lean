import Kronk.Proofs.Expressions

/-!
# Definite declarations

A name stands for its last declaration in the text, also where control passes that declaration by.
`Definite` lists the names whose declaration is passed on every way to a place, and statements are
settled if they mention such names only.
-/

namespace Kronk.Source

/-- The names whose last declaration is passed on every way to a place; nothing if no way leads
there. -/
abbrev Definite := Option (List String)

namespace Definite

/-- A name has just been declared. -/
def adding (name : String) (definite : Definite) : Definite := definite.map (name :: ·)

/-- Some names may have been declared again. -/
def without (declared : List String) (definite : Definite) : Definite :=
  definite.map fun names => names.filter fun name => name ∉ declared

/-- Two ways come together. -/
def meet : Definite → Definite → Definite
  | none, other => other
  | some names, none => some names
  | some names, some others => some (names.filter fun name => name ∈ others)

/-- Every name that an expression mentions is declared, or no way leads to the expression. -/
def allows (definite : Definite) (expression : Expr) : Bool :=
  definite.all fun names => expression.mentions.all fun name => name ∈ names

theorem meet_left {definite : Definite} {names : List String} (same : definite = some names)
    (other : Definite) : ∃ rest, definite.meet other = some rest ∧ rest ⊆ names := by
  subst same
  cases other with
  | none => exact ⟨names, rfl, List.Subset.refl _⟩
  | some others => exact ⟨_, rfl, List.filter_sublist.subset⟩

theorem meet_right (definite : Definite) {other : Definite} {names : List String}
    (same : other = some names) : ∃ rest, definite.meet other = some rest ∧ rest ⊆ names := by
  subst same
  cases definite with
  | none => exact ⟨names, rfl, List.Subset.refl _⟩
  | some others =>
    refine ⟨_, rfl, ?_⟩
    intro name member
    simpa using (List.mem_filter.mp member).2

end Definite

mutual

/-- The names that a statement declares in the function it stands in. -/
def Stmt.declared : Stmt → List String
  | .declaration _ name _ => [name]
  | .initialisation _ name _ => [name]
  | .conditional _ _ consequent rest => consequent.declared ++ rest.declared
  | .loop _ _ body => body.declared
  | .entity _ => []
  | .function _ _ _ => []
  | .result _ _ => []
  | .inclusion _ => []
  | .expression _ => []

def Block.declared : Block → List String
  | .mk _ body => declaredAll body

/-- The names that are declared in what follows the first block of a conditional. -/
def Alternative.declared : Alternative → List String
  | .absent => []
  | .block body => body.declared
  | .conditional _ _ consequent rest => consequent.declared ++ rest.declared

/-- The names that statements declare up to the first one that leaves the function. -/
def declaredAll : List Stmt → List String
  | [] => []
  | first :: rest => first.declared ++ if first.isResult then [] else declaredAll rest

end

mutual

def Stmt.after : Stmt → Definite → Definite
  | .declaration _ name _, definite => definite.adding name
  | .initialisation _ name _, definite => definite.adding name
  | .conditional _ _ consequent rest, definite =>
    ((consequent.after definite).without rest.declared).meet
      (rest.after (definite.without consequent.declared))
  | .loop _ _ body, definite => definite.without body.declared
  | .result _ _, _ => none
  | .entity _, definite => definite
  | .function _ _ _, definite => definite
  | .inclusion _, definite => definite
  | .expression _, definite => definite

def Block.after : Block → Definite → Definite
  | .mk _ body, definite => afterAll body definite

def Alternative.after : Alternative → Definite → Definite
  | .absent, definite => definite
  | .block body, definite => body.after definite
  | .conditional _ _ consequent rest, definite =>
    ((consequent.after definite).without rest.declared).meet
      (rest.after (definite.without consequent.declared))

def afterAll : List Stmt → Definite → Definite
  | [], definite => definite
  | first :: rest, definite =>
    if first.isResult then first.after definite else afterAll rest (first.after definite)

end

mutual

/-- A statement mentions only names that are definite where it mentions them.  A function knows its
parameters. -/
def Stmt.isSettled : Stmt → Definite → Bool
  | .declaration _ _ _, _ => true
  | .initialisation _ _ value, definite => definite.allows value
  | .conditional _ condition consequent rest, definite =>
    definite.allows condition && consequent.isSettled definite &&
      rest.isSettled (definite.without consequent.declared)
  | .loop _ condition body, definite => definite.allows condition && body.isSettled definite
  | .result _ value, definite => value.all definite.allows
  | .entity _, _ => true
  | .function _ prototype body, _ => body.isSettled (some (prototype.parameters.map Prod.fst))
  | .inclusion _, _ => true
  | .expression value, definite => definite.allows value

/-- The statements of a block mention only names that are definite. -/
def Block.isSettled : Block → Definite → Bool
  | .mk _ body, definite => settledAll body definite

/-- The second part of a conditional mentions only names that are definite. -/
def Alternative.isSettled : Alternative → Definite → Bool
  | .absent, _ => true
  | .block body, definite => body.isSettled definite
  | .conditional _ condition consequent rest, definite =>
    definite.allows condition && consequent.isSettled definite &&
      rest.isSettled (definite.without consequent.declared)

def settledAll : List Stmt → Definite → Bool
  | [], _ => true
  | first :: rest, definite =>
    first.isSettled definite && (first.isResult || settledAll rest (first.after definite))

end

end Kronk.Source
