import Kronk.Source.ExprReader
import Kronk.Source.Stmt

/-!
# Reading statements

`Reading.statement` reads the next statement of a file.  A statement ends with a new line, a
semicolon, the end of the text or the brace that closes its block.
-/

namespace Kronk.Source.Reader

def atTerminator : Reader Bool := return (← current).endsStatement

def declaration (fuel : Nat) : Reader Stmt := do
  let line ← line
  next
  let name ← identifier .variableName
  if ← atChar ':' then
    next
    return .declaration line name (← typeName none fuel)
  else if (← current).lexeme = .operator Operator.assign.spelling then
    next
    return .initialisation line name (← expr fuel)
  else fail .declarationBody

def fieldDefinitions (mangled symbol : String) :
    (fuel : Nat) → (fields : List (String × TypeName)) → Reader (List (String × TypeName))
  | 0, _ => cutOff
  | fuel + 1, fields => do
    let field ← identifier .fieldDefinition
    if (fields.map Prod.fst).contains field then fail (.repeatedField field symbol)
    passChar ':' (.fieldType field)
    let type ← typeName (some mangled) fuel
    let fields := fields ++ [(field, type)]
    if ← atChar '}' then return fields
    if !(← atTerminator) then fail .statementEnd
    nextSkipLines
    if (← current).isEnd then fail .blockEnd
    if ← atChar '}' then return fields
    fieldDefinitions mangled symbol fuel fields

def entityDefinition (fuel : Nat) : Reader Stmt := do
  let line ← line
  next
  let symbol ← identifier .entityName
  let mangled := Name.ofType (← read).module.id symbol
  if (← get).signatures.contains mangled then fail (.entityExists symbol)
  if !(← atChar '{') then fail (.entityBody symbol)
  nextSkipLines
  if ← atChar '}' then fail .emptyEntity
  let fields ← fieldDefinitions mangled symbol fuel []
  modify fun reading =>
    { reading with signatures := reading.signatures.insert mangled (fields.map Prod.fst) }
  next
  return .entity ⟨line, mangled, symbol, fields⟩

def includePath : (fuel : Nat) → Reader (List String)
  | 0 => cutOff
  | fuel + 1 => do
    let element ← identifier .moduleName
    if ← atChar '.' then
      next
      return element :: (← includePath fuel)
    else return [element]

def includeTarget (fuel : Nat) : Reader IncludeTarget := do
  if ← atChar ':' then
    next
    return .runtime (← identifier .runtimeModule)
  else return .file (← includePath fuel)

def inclusion (fuel : Nat) : Reader Stmt := do
  let line ← line
  next
  let target ← includeTarget fuel
  match (← current).lexeme with
  | .identifier word =>
    if word ≠ "as" then fail .aliasKeyword
    next
    let subject := match target with
      | .file path => path.headD ""
      | .runtime name => name
    let localName ← identifier (.aliasName subject)
    return .inclusion ⟨line, target, some localName⟩
  | _ => return .inclusion ⟨line, target, none⟩

def parameters : (fuel : Nat) → Reader (List (String × TypeName))
  | 0 => cutOff
  | fuel + 1 => do
    if ← atChar ')' then return []
    let name ← identifier .parameterName
    passChar ':' (.parameterType name)
    let type ← typeName none fuel
    if ← atChar ')' then return [(name, type)]
    passChar ',' .parameterEnd
    return (name, type) :: (← parameters fuel)

/-- Reads the head of a function definition.  A function without a result type gives nothing. -/
def prototype (fuel : Nat) : Reader Prototype := do
  let line ← line
  let symbol ← identifier .functionName
  passChar '(' .parameterList
  let parameters ← parameters fuel
  next
  let result ← if ← atChar '{' then pure none else some <$> typeName none fuel
  return ⟨line, Name.ofFunction (← read).module.id symbol, symbol, parameters, result⟩

def result (fuel : Nat) : Reader Stmt := do
  let line ← line
  next
  if (← atTerminator) || (← current).isEnd || (← atChar '}') then return .result line none
  else return .result line (some (← expr fuel))

/-- Whether a conditional has consumed the end of its statement while it looked for its
alternative, with the conditional. -/
structure ConditionalParts where
  line : Nat
  condition : Expr
  consequent : Block
  alternative : Alternative
  terminated : Bool

mutual

/-- Reads the next statement; nothing at the end of the text. -/
def statement : (fuel : Nat) → Reader (Option Stmt)
  | 0 => cutOff
  | fuel + 1 => do
    skipLines
    match (← current).lexeme with
    | .endOfFile => return none
    | .keyword .function => finish false (← traced "Read Function Definition" (function fuel))
    | .keyword .entity =>
      finish false (← traced "Read Entity Definition" (entityDefinition fuel))
    | .keyword .declaration => finish false (← traced "Read Declaration" (declaration fuel))
    | .keyword .condition =>
      let parts ← traced "Read if statement" (conditional fuel)
      finish parts.terminated
        (.conditional parts.line parts.condition parts.consequent parts.alternative)
    | .keyword .loop => finish false (← traced "Read while statement" (loop fuel))
    | .keyword .result => finish false (← traced "Read return statement" (result fuel))
    | .keyword .inclusion => finish false (← traced "Read include statement" (inclusion fuel))
    | _ => finish false (.expression (← traced "Read an Expression" (expr fuel)))
where
  finish (terminated : Bool) (stmt : Stmt) : Reader (Option Stmt) := do
    if terminated || (← current).isEnd || (← atChar '}') then return some stmt
    else if ← atTerminator then
      nextSkipLines
      return some stmt
    else fail .statementEnd

def block : (fuel : Nat) → Reader Block
  | 0 => cutOff
  | fuel + 1 => do
    let line ← line
    passChar '{' .blockStart
    skipLines
    let statements ← blockStatements fuel
    next
    return .mk line statements

def blockStatements : (fuel : Nat) → Reader (List Stmt)
  | 0 => cutOff
  | fuel + 1 => do
    if ← atChar '}' then return []
    if (← current).isEnd then fail .blockEnd
    match ← statement fuel with
    | some stmt => return stmt :: (← blockStatements fuel)
    | none => blockStatements fuel

/-- Reads a conditional with its alternatives, which may follow on a later line. -/
def conditional : (fuel : Nat) → Reader ConditionalParts
  | 0 => cutOff
  | fuel + 1 => do
    let line ← line
    next
    let condition ← expr fuel
    let consequent ← block fuel
    let terminated ← atTerminator
    if terminated then nextSkipLines
    if (← current).lexeme ≠ .keyword .otherwise then
      return ⟨line, condition, consequent, .absent, terminated⟩
    next
    if (← current).lexeme = .keyword .condition then
      let nested ← conditional fuel
      return ⟨line, condition, consequent,
        .conditional nested.line nested.condition nested.consequent nested.alternative,
        nested.terminated⟩
    else return ⟨line, condition, consequent, .block (← block fuel), false⟩

def loop : (fuel : Nat) → Reader Stmt
  | 0 => cutOff
  | fuel + 1 => do
    let line ← line
    next
    let condition ← expr fuel
    if !(← atChar '{') then fail .loopBlock
    return .loop line condition (← block fuel)

def function : (fuel : Nat) → Reader Stmt
  | 0 => cutOff
  | fuel + 1 => do
    let line ← line
    next
    let prototype ← prototype fuel
    if !(← atChar '{') then fail .blockStart
    return .function line prototype (← block fuel)

end

end Kronk.Source.Reader

namespace Kronk.Source.Reading

/-- A bound on the depth of reading one statement: no token is the occasion for more than eight
nested readers. -/
def fuel (reading : Reading) : Nat := 8 * (reading.rest.length + 2)

def statement (reading : Reading) (surroundings : Surroundings) :
    EStateM.Result Failure Reading (Option Stmt) :=
  Reader.statement reading.fuel surroundings reading

end Kronk.Source.Reading
