import Kronk.Registry
import Kronk.Source.Stmt

/-!
# Names that are looked up

A text is lowered by looking mangled names up in the registry: those of the types, entities and
functions that it writes.  Two registries that answer alike to a name cannot be told apart by
looking it up.
-/

namespace Kronk

/-- The registries answer alike to a name. -/
structure Registry.AgreeOn (name : String) (first second : Registry) : Prop where
  owner : ∀ view, first.owner? view name = second.owner? view name
  canonical : first.canonical name = second.canonical name

namespace Registry.AgreeOn

variable {name : String} {first second : Registry}

theorem entry {α : Type} (table : Module → Table α) (agree : AgreeOn name first second)
    (view : Viewpoint) : first.lookup? table view name = second.lookup? table view name := by
  simp only [lookup?, agree.owner, agree.canonical]

theorem entity (agree : AgreeOn name first second) (view : Viewpoint) :
    first.entity? view name = second.entity? view name :=
  agree.entry Module.entities view

theorem signature (agree : AgreeOn name first second) (view : Viewpoint) :
    first.signature? view name = second.signature? view name :=
  agree.entry Module.signatures view

theorem function (agree : AgreeOn name first second) (view : Viewpoint) :
    first.function? view name = second.function? view name := by
  simp only [function?, agree.owner, agree.canonical]

end Registry.AgreeOn

namespace Source

/-- The names that a type writes are of the kind. -/
def TypeName.Consults (names : String → Prop) : TypeName → Prop
  | .builtin _ => True
  | .list element => element.Consults names
  | .entity name _ => names name

mutual

/-- The mangled names in an expression are of the kind. -/
def Expr.Consults (names : String → Prop) : Expr → Prop
  | .boolean _ _ => True
  | .number _ _ => True
  | .string _ _ => True
  | .identifier _ _ => True
  | .list _ elements => consultsAll names elements
  | .index _ list index => list.Consults names ∧ index.Consults names
  | .slice _ list start stop =>
    list.Consults names ∧ consultsOption names start ∧ consultsOption names stop
  | .entity _ name _ fields => names name ∧ consultsOptions names fields
  | .field _ entity _ => entity.Consults names
  | .binary _ _ left right => left.Consults names ∧ right.Consults names
  | .unary _ _ operand => operand.Consults names
  | .assignment _ target value => target.Consults names ∧ value.Consults names
  | .call _ callee arguments => names callee ∧ consultsAll names arguments

def consultsAll (names : String → Prop) : List Expr → Prop
  | [] => True
  | expression :: rest => expression.Consults names ∧ consultsAll names rest

/-- The mangled names in an expression that may be absent are of the kind. -/
def consultsOption (names : String → Prop) : Option Expr → Prop
  | none => True
  | some expression => expression.Consults names

/-- The mangled names in expressions that may be absent are of the kind. -/
def consultsOptions (names : String → Prop) : List (Option Expr) → Prop
  | [] => True
  | expression :: rest => consultsOption names expression ∧ consultsOptions names rest

end

theorem TypeName.consults_all (type : TypeName) : type.Consults fun _ => True := by
  induction type with
  | builtin type => trivial
  | list element ih => exact ih
  | entity name symbol => trivial

mutual

theorem Expr.consults_all (expression : Expr) : expression.Consults fun _ => True := by
  cases expression with
  | list line elements => exact consultsAll_all elements
  | index line list index => exact ⟨list.consults_all, index.consults_all⟩
  | slice line list start stop =>
    exact ⟨list.consults_all, consultsOption_all start, consultsOption_all stop⟩
  | entity line name symbol fields => exact ⟨trivial, consultsOptions_all fields⟩
  | field line entity name => exact entity.consults_all
  | binary line operator left right => exact ⟨left.consults_all, right.consults_all⟩
  | unary line operator operand => exact operand.consults_all
  | assignment line target value => exact ⟨target.consults_all, value.consults_all⟩
  | call line callee arguments => exact ⟨trivial, consultsAll_all arguments⟩
  | _ => trivial

theorem consultsAll_all (expressions : List Expr) : consultsAll (fun _ => True) expressions := by
  cases expressions with
  | nil => trivial
  | cons expression rest => exact ⟨expression.consults_all, consultsAll_all rest⟩

theorem consultsOption_all (expression : Option Expr) :
    consultsOption (fun _ => True) expression := by
  cases expression with
  | none => trivial
  | some expression => exact expression.consults_all

theorem consultsOptions_all (expressions : List (Option Expr)) :
    consultsOptions (fun _ => True) expressions := by
  cases expressions with
  | nil => trivial
  | cons expression rest => exact ⟨consultsOption_all expression, consultsOptions_all rest⟩

end

theorem consultsOptions_unset {α : Type} (names : String → Prop) (items : List α) :
    consultsOptions names (items.map fun _ => none) := by
  induction items with
  | nil => trivial
  | cons item rest ih => exact ⟨trivial, ih⟩

theorem consultsOptions_set {names : String → Prop} {value : Expr} :
    ∀ fields : List (Option Expr), consultsOptions names fields → value.Consults names →
      ∀ position, consultsOptions names (fields.set position (some value))
  | [], _, _, _ => trivial
  | _ :: _, known, knownValue, 0 => ⟨knownValue, known.2⟩
  | _ :: rest, known, knownValue, position + 1 =>
    ⟨known.1, consultsOptions_set rest known.2 knownValue position⟩

def Prototype.Consults (names : String → Prop) (prototype : Prototype) : Prop :=
  (∀ parameter ∈ prototype.parameters, parameter.2.Consults names) ∧
    ∀ result ∈ prototype.result, result.Consults names

theorem Prototype.consults_all (prototype : Prototype) : prototype.Consults fun _ => True :=
  ⟨fun parameter _ => parameter.2.consults_all, fun result _ => result.consults_all⟩

mutual

/-- The mangled names that a statement looks up are of the kind. -/
def Stmt.Consults (names : String → Prop) : Stmt → Prop
  | .declaration _ _ type => type.Consults names
  | .initialisation _ _ value => value.Consults names
  | .entity definition => ∀ field ∈ definition.fields, field.2.Consults names
  | .function _ prototype body => prototype.Consults names ∧ body.Consults names
  | .result _ value => consultsOption names value
  | .conditional _ condition consequent rest =>
    condition.Consults names ∧ consequent.Consults names ∧ rest.Consults names
  | .loop _ condition body => condition.Consults names ∧ body.Consults names
  | .inclusion _ => True
  | .expression value => value.Consults names

def Block.Consults (names : String → Prop) : Block → Prop
  | .mk _ body => stmtsConsult names body

/-- The mangled names in what follows the first block of a conditional are of the kind. -/
def Alternative.Consults (names : String → Prop) : Alternative → Prop
  | .absent => True
  | .block body => body.Consults names
  | .conditional _ condition consequent rest =>
    condition.Consults names ∧ consequent.Consults names ∧ rest.Consults names

def stmtsConsult (names : String → Prop) : List Stmt → Prop
  | [] => True
  | first :: rest => first.Consults names ∧ stmtsConsult names rest

end

end Source

end Kronk
