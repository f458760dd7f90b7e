import Kronk.Source.Expr
import Kronk.Source.Reader

/-!
# Reading type names

A type is one of the builtin ones, `liste(T)`, an entity of the file or `alias::Name`.
-/

namespace Kronk.Source.Reader

/-- Passes over the `::` after an alias and over the name behind it. -/
def foreignSymbol (localName : String) : Reader String := do
  if !(← read).module.hasDependency localName then fail (.unknownAlias localName)
  next
  identifier (.foreignName localName)

/-- Reads a type.  `defining` is the mangled name of the entity whose fields are being read, which
its own fields may name. -/
def typeName (defining : Option String) : (fuel : Nat) → Reader TypeName
  | 0 => cutOff
  | fuel + 1 => do
    let name ← identifier .typeName
    if name = "liste" then
      passChar '(' .elementType
      let element ← typeName defining fuel
      passChar ')' .elementTypeEnd
      return .list element
    match Builtin.ofSpelling? name with
    | some builtin => return .builtin builtin
    | none =>
      let surroundings ← read
      if (← current).lexeme = .scope then
        let symbol ← foreignSymbol name
        let mangled := Name.ofForeignType surroundings.module.id name symbol
        if (← signature? mangled).isSome then
          return .entity (← canonical mangled) symbol
        else fail (.unknownType (name ++ "::" ++ symbol))
      else
        let mangled := Name.ofType surroundings.module.id name
        if (← get).signatures.contains mangled || defining == some mangled then
          return .entity mangled name
        else fail (.unknownType name)

end Kronk.Source.Reader
