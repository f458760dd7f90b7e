import Kronk.Source.TypeReader

/-!
# Reading expressions

Binary expressions are read by precedence climbing.  `**` and `=` group from the right, all other
operators from the left, and a chain of comparisons `a < b < c` stands for `(a < b) et (b < c)`.
Suffixes `.field`, `[i]` and `[i:j]` bind tighter than every operator.
-/

namespace Kronk.Source.Reader

/-- Joins two operands; the left one of an assignment must be something that can be assigned to. -/
def join (line : Nat) (operator : Operator) (left right : Expr) : Reader Expr :=
  if operator = .assign then
    if left.isTarget then return .assignment line left right else fail .assignmentTarget
  else return .binary line operator left right

/-- Whether the operator the reader stands at binds tighter than `precedence`. -/
def bindsTighter (precedence : Nat) : Reader Bool := do
  return (← operator?).any (fun operator => precedence < operator.precedence)

def bindsEqually (precedence : Nat) : Reader Bool := do
  return (← operator?).any (fun operator => precedence = operator.precedence)

mutual

def expr : (fuel : Nat) → Reader Expr
  | 0 => cutOff
  | fuel + 1 => do binary fuel 0 (← primary fuel)

/-- Reads operators that bind at least as tightly as `minimum`, with their right operands. -/
def binary : (fuel : Nat) → (minimum : Nat) → (left : Expr) → Reader Expr
  | 0, _, _ => cutOff
  | fuel + 1, minimum, left => do
    let left ← access fuel left
    match ← operator? with
    | none => return left
    | some operator =>
      let precedence := operator.precedence
      if precedence < minimum then return left
      let line ← line
      next
      let operand ← access fuel (← primary fuel)
      let right ←
        if ← bindsTighter precedence then binary fuel (precedence + 1) operand
        else pure operand
      if ← bindsEqually precedence then
        if operator.isRightAssociative then
          let right ← binary fuel precedence right
          binary fuel minimum (← join line operator left right)
        else if operator.isRelational then
          let first ← join line operator left right
          let later ← binary fuel precedence right
          binary fuel minimum (.binary line .and first later)
        else binary fuel minimum (← join line operator left right)
      else binary fuel minimum (← join line operator left right)

/-- Reads an operand without its suffixes. -/
def primary : (fuel : Nat) → Reader Expr
  | 0 => cutOff
  | fuel + 1 => do
    let line ← line
    match (← current).lexeme with
    | .identifier name => next; named fuel line name
    | .boolean value => next; return .boolean line value
    | .number _ value => next; return .number line value
    | .string value => next; return .string line value
    | .operator spelling =>
      match Operator.ofSpelling? spelling with
      | some operator =>
        if operator.isUnary then
          next
          return .unary line operator (← access fuel (← primary fuel))
        else fail (.notUnary spelling)
      | none => fail (.notUnary spelling)
    | .char '(' =>
      next
      let inner ← expr fuel
      passChar ')' .closingParenthesis
      return inner
    | .char '[' =>
      next
      if ← atChar ']' then
        next
        return .list line []
      else
        let elements ← elements fuel 1
        next
        return .list line elements
    | _ => fail .malformedExpression

/-- Reads what a name starts: an entity, a call or a variable.  `alias::name` is looked up in the
module included under the alias. -/
def named : (fuel : Nat) → (line : Nat) → (name : String) → Reader Expr
  | 0, _, _ => cutOff
  | fuel + 1, line, name => do
    let surroundings ← read
    let id := surroundings.module.id
    if (← current).lexeme = .scope then
      let symbol ← foreignSymbol name
      let mangled := Name.ofForeignType id name symbol
      if (← signature? mangled).isSome then
        entity fuel line (← canonical mangled) symbol
      else if ← atChar '(' then call fuel line (Name.ofForeignFunction id name symbol)
      else fail (.foreignCall (name ++ "::" ++ symbol))
    else if (← get).signatures.contains (Name.ofType id name) then
      entity fuel line (Name.ofType id name) name
    else if ← atChar '(' then call fuel line (Name.ofFunction id name)
    else return .identifier line name

def call : (fuel : Nat) → (line : Nat) → (callee : String) → Reader Expr
  | 0, _, _ => cutOff
  | fuel + 1, line, callee => do
    next
    if ← atChar ')' then
      next
      return .call line callee []
    else
      let arguments ← arguments fuel
      next
      return .call line callee arguments

def arguments : (fuel : Nat) → Reader (List Expr)
  | 0 => cutOff
  | fuel + 1 => do
    let argument ← expr fuel
    if ← atChar ')' then return [argument]
    passChar ',' .argumentEnd
    return argument :: (← arguments fuel)

/-- Reads list elements up to the closing bracket; the first one has the number `position`. -/
def elements : (fuel : Nat) → (position : Nat) → Reader (List Expr)
  | 0, _ => cutOff
  | fuel + 1, position => do
    let element ← expr fuel
    if ← atChar ']' then return [element]
    passChar ',' (.elementEnd position)
    return element :: (← elements fuel (position + 1))

def entity : (fuel : Nat) → (line : Nat) → (name symbol : String) → Reader Expr
  | 0, _, _, _ => cutOff
  | fuel + 1, line, name, symbol => do
    passChar '(' .literalStart
    let signature := (← signature? name).getD []
    let unset := signature.map (fun _ => none)
    if ← atChar ')' then
      next
      return .entity line name symbol unset
    else
      match (← current).lexeme with
      | .identifier _ =>
        let fields ← fieldValues fuel symbol signature 1 unset
        next
        return .entity line name symbol fields
      | _ => fail .literalContent

/-- Reads `field = value` pairs up to the closing parenthesis.  `count` is the number of the next
pair and `fields` holds the values read so far by position. -/
def fieldValues : (fuel : Nat) → (symbol : String) → (signature : List String) → (count : Nat) →
    (fields : List (Option Expr)) → Reader (List (Option Expr))
  | 0, _, _, _, _ => cutOff
  | fuel + 1, symbol, signature, count, fields => do
    let field ← identifier .literalField
    match signature.findIdx? (· == field) with
    | none => fail (.unknownField field symbol)
    | some position =>
      if (← current).lexeme != .operator Operator.assign.spelling then fail (.fieldValue field)
      next
      let value ← expr fuel
      if (fields[position]?.join).isSome then fail (.repeatedValue field)
      let fields := fields.set position (some value)
      if ← atChar ')' then return fields
      passChar ',' .literalEnd
      if count = signature.length then fail (.literalTooLong symbol)
      fieldValues fuel symbol signature (count + 1) fields

def access : (fuel : Nat) → (target : Expr) → Reader Expr
  | 0, _ => cutOff
  | fuel + 1, target => do
    let line ← line
    if ← atChar '[' then
      next
      access fuel (← listAccess fuel line target)
    else if ← atChar '.' then
      next
      let field ← identifier .fieldName
      access fuel (.field line target field)
    else return target

/-- Reads what follows an opening bracket: an index or the bounds of a slice. -/
def listAccess : (fuel : Nat) → (line : Nat) → (list : Expr) → Reader Expr
  | 0, _, _ => cutOff
  | fuel + 1, line, list => do
    if ← atChar ']' then fail .emptyAccess
    if ← atChar ':' then sliceEnd fuel line list none
    else
      let start ← expr fuel
      if ← atChar ']' then
        next
        return .index line list start
      else if ← atChar ':' then sliceEnd fuel line list (some start)
      else fail .malformedAccess

def sliceEnd : (fuel : Nat) → (line : Nat) → (list : Expr) → (start : Option Expr) → Reader Expr
  | 0, _, _, _ => cutOff
  | fuel + 1, line, list, start => do
    next
    let stop ← if ← atChar ']' then pure none else some <$> expr fuel
    passChar ']' .accessEnd
    return .slice line list start stop

end

end Kronk.Source.Reader
