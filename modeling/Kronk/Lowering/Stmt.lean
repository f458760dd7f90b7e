import Kronk.Lowering.Expr

/-!
# Lowering of statements

Statements add code to the current block, names to the innermost scope, and entities and functions
to the module.  Compiling an included file is left to the caller, who gives it as `compileIncluded`.
-/

namespace Kronk.Lowering

open Lower Source

/-! ## Declarations -/

def zeroOf : Ty → IR.Value
  | .bool => .boolean false
  | _ => .real Binary64.zero

/-- Declares a name of a given type: a zero, an empty list or an entity without content. -/
def declaration (line : Nat) (name : String) (written : TypeName) : Lower Unit := do
  let type ← resolve line none written
  match type with
  | .entity header fields =>
    let address ← emit (Emit.buildEntity ⟨header, fields⟩)
    let _ ← recordFresh address type
    bindName name address type
  | .list element =>
    let (list, _) ← emit (Emit.buildList element (.int64 0))
    let _ ← recordFresh list type
    bindName name list type
  | _ =>
    let slot ← emit do Emit.alloca (← valueLayout type) none
    emit (Emit.store (zeroOf type) slot)
    bindName name slot type

/-- Declares a name with a value.  An aggregate that was just built is named directly, any other one
is copied. -/
def initialisation (name : String) (value : Fragment) : Lower Unit := do
  let operand ← value.value
  if operand.type.isAggregate then
    let innermost ← scope
    if innermost.isFresh operand.value && !innermost.isNamed operand.value then
      bindName name operand.value operand.type
    else
      let copy ← emit (Emit.copyOf operand.value operand.type)
      let _ ← recordFresh copy operand.type
      bindName name copy operand.type
  else
    let real ← widen operand
    let slot ← emit do Emit.alloca (← valueLayout real.type) none
    emit (Emit.store real.value slot)
    bindName name slot real.type

def inFunctionBody : Lower Bool := return 1 < (← get).frame.scopes.length

/-- Resolves the fields of an entity, in which its own name stands for itself. -/
def resolveFields (line : Nat) (own : String) :
    List (String × TypeName) → Lower (List (String × Ty))
  | [] => return []
  | (name, written) :: rest => do
    let type ← resolve line (some own) written
    return (name, type) :: (← resolveFields line own rest)

def entityDefinition (definition : EntityDefinition) : Lower Unit := do
  if ← inFunctionBody then fail definition.line .nestedEntity
  let names := definition.fields.map Prod.fst
  modifyModule fun module =>
    { module with signatures := module.signatures.insert definition.name names }
  let fields ← resolveFields definition.line definition.name definition.fields
  let header := EntityName.mk definition.name (← currentModule).id definition.symbol
  let entity := Entity.mk header fields
  modifyModule fun module =>
    { module with entities := module.entities.insert definition.name entity }
  let _ ← emit (valueLayout entity.type)
  trace ("Created entity type " ++ definition.name)

/-! ## Functions -/

def resolveHead (prototype : Prototype) : Lower Signature := do
  let parameters ← prototype.parameters.mapM fun parameter =>
    resolve prototype.line none parameter.2
  let result ← prototype.result.mapM (resolve prototype.line none)
  return {
    name := prototype.name
    module := (← currentModule).id
    symbol := prototype.symbol
    parameterNames := prototype.parameters.map Prod.fst
    parameters := parameters
    result := result
    variadic := false }

def exitLabel : String := "FunctionExit"

def resultSlot (type : IR.Ty) : Emit IR.Value := do
  let name := IR.LocalName.named "ReturnValue"
  Emit.append ⟨some name, .alloca type none⟩
  return .result name (.pointer type)

/-- Names the parameters of a function: an aggregate itself, a primitive by a slot. -/
def bindParameters : List (IR.Value × String × Ty) → Lower Unit
  | [] => return
  | (value, name, type) :: rest => do
    if type.isAggregate then bindName name value type
    else
      let slot ← emit do
        let slot ← Emit.alloca (← slotLayout type) none
        Emit.store value slot
        return slot
      bindName name slot type
    bindParameters rest

def closeFunction (activation : Activation) : Emit Unit := do
  Emit.jumpUnlessTerminated exitLabel
  Emit.enterBlock (← Emit.newBlock exitLabel)
  match activation.result, activation.slot with
  | some type, some slot =>
    let result ← Emit.load (← slotLayout type) slot
    Emit.terminate (.ret (some result))
  | _, _ => Emit.terminate (.ret none)

/-- What is set aside while the body of a function is compiled, and the function itself. -/
structure Suspension where
  activation : Activation
  scopes : List Scope
  place : Place

/-- Starts the definition of a function: its entry block names its parameters. -/
def enterFunction (line : Nat) (prototype : Prototype) : Lower Suspension := do
  if ← inFunctionBody then fail line .nestedFunction
  if (← currentModule).functions.contains prototype.name then
    fail line (.functionExists prototype.symbol)
  let function ← resolveHead prototype
  modifyModule fun module =>
    { module with functions := module.functions.insert function.name function }
  let index ← emit (declareSignature function)
  trace ("Creating function definition " ++ function.text)
  let outside := (← get).frame
  modifyFrame fun frame => { frame with draft.place := ⟨index, 0⟩ }
  emit do Emit.enterBlock (← Emit.newBlock "FunctionEntry")
  let slot ← emit (function.result.mapM fun type => do resultSlot (← slotLayout type))
  let activation := Activation.mk function.result slot
  let bodyScope : Scope := { activation := some activation }
  modifyFrame fun frame => { frame with scopes := bodyScope :: frame.scopes }
  let arguments := ((outside.draft.functions[index]?).map IR.Function.parameterValues).getD []
  bindParameters (arguments.zip (function.parameterNames.zip function.parameters))
  return ⟨activation, outside.scopes, outside.draft.place⟩

def leaveFunction (suspended : Suspension) : Lower Unit := do
  emit (closeFunction suspended.activation)
  modifyFrame fun frame =>
    { frame with scopes := suspended.scopes, draft.place := suspended.place }

def functionDefinition (line : Nat) (prototype : Prototype) (body : Lower Unit) : Lower Unit := do
  let suspended ← enterFunction line prototype
  body
  leaveFunction suspended

/-- Leaves the function, with a value if it has a result. -/
def resultStatement (line : Nat) (value : Option Fragment) : Lower Unit := do
  match (← get).frame.scopes.findSome? Scope.activation with
  | none => fail line .resultOutside
  | some activation =>
    match value, activation.result, activation.slot with
    | none, none, _ => emit (Emit.terminate (.jump exitLabel))
    | some fragment, some type, some slot =>
      let operand ← fragment.value
      match ← convert? operand type with
      | none => fail line .resultType
      | some converted =>
        emit (Emit.store converted.value slot)
        emit (Emit.terminate (.jump exitLabel))
    | _, _, _ => fail line .resultType

/-! ## Control -/

def conditionValue (condition : Fragment) : Lower IR.Value := do
  let operand ← condition.value
  if !operand.type.isBool then fail condition.line .condition
  return operand.value

/-- Where the second body of a conditional and what follows it are written. -/
structure Arms where
  elseBlock : Nat
  restLabel : String
  restBlock : Nat

/-- Ends the current block by a branch and goes on with the first body. -/
def openArms (holds : IR.Value) : Emit Arms := do
  let (thenLabel, thenBlock) ← Emit.freshBlock "if.then"
  let (elseLabel, elseBlock) ← Emit.freshBlock "if.else"
  let (restLabel, restBlock) ← Emit.freshBlock "if.cont"
  Emit.terminate (.branch holds thenLabel elseLabel)
  Emit.enterBlock thenBlock
  return ⟨elseBlock, restLabel, restBlock⟩

def turnArms (arms : Arms) : Emit Unit := do
  Emit.jumpUnlessTerminated arms.restLabel
  Emit.enterBlock arms.elseBlock

def closeArms (arms : Arms) : Emit Unit := do
  Emit.jumpUnlessTerminated arms.restLabel
  Emit.enterBlock arms.restBlock

def conditional (condition : Fragment) (consequent alternative : Lower Unit) : Lower Unit := do
  let holds ← conditionValue condition
  let arms ← emit (openArms holds)
  consequent
  emit (turnArms arms)
  alternative
  emit (closeArms arms)

/-- Where the test and the body of a loop and what follows it are written. -/
structure Round where
  testLabel : String
  bodyLabel : String
  bodyBlock : Nat
  exitLabel : String
  exitBlock : Nat

def openLoop : Emit Round := do
  let (testLabel, testBlock) ← Emit.freshBlock "while.cond"
  let (bodyLabel, bodyBlock) ← Emit.freshBlock "while.body"
  let (exitLabel, exitBlock) ← Emit.freshBlock "while.exit"
  Emit.terminate (.jump testLabel)
  Emit.enterBlock testBlock
  return ⟨testLabel, bodyLabel, bodyBlock, exitLabel, exitBlock⟩

def enterLoop (round : Round) (holds : IR.Value) : Emit Unit := do
  Emit.terminate (.branch holds round.bodyLabel round.exitLabel)
  Emit.enterBlock round.bodyBlock

def closeLoop (round : Round) : Emit Unit := do
  Emit.jumpUnlessTerminated round.testLabel
  Emit.enterBlock round.exitBlock

def loop (condition : Fragment) (body : Lower Unit) : Lower Unit := do
  let round ← emit openLoop
  let holds ← conditionValue condition
  emit (enterLoop round holds)
  body
  emit (closeLoop round)

/-! ## Includes -/

def addDependency (localName : String) : Lower Unit :=
  modifyModule fun module => { module with dependencies := module.dependencies ++ [localName] }

/-- Includes a runtime module or a file.  `compileIncluded path id line` compiles a file under a
module id. -/
def inclusion (compileIncluded : String → String → Nat → Lower Unit) (statement : Include) :
    Lower Unit := do
  let module ← currentModule
  if module.hasDependency statement.id then fail statement.line (.repeatedAlias statement.id)
  let id := Name.includeId module.id statement.id
  match statement.target with
  | .runtime name =>
    if !Catalogue.hasModule name then fail statement.line (.unknownRuntime name)
    modify fun bench =>
      let registry := bench.session.registry.register (Module.ofRuntime id name)
      { bench with session := { bench.session with registry := registry } }
    addDependency statement.id
  | .file path =>
    let file := (← get).session.locateInclude module.file path
    trace ("Starting compilation of included file " ++ file)
    compileIncluded file id statement.line
    addDependency statement.id
    trace ("Successfully compiled included module " ++ id)

/-! ## Statements -/

mutual

def statement (compileIncluded : String → String → Nat → Lower Unit) : Stmt → Lower Unit
  | .declaration line name type => declaration line name type
  | .initialisation _ name value => initialisation name (lower value)
  | .entity definition => entityDefinition definition
  | .function line prototype body => functionDefinition line prototype (block compileIncluded body)
  | .result line value => resultStatement line (value.map lower)
  | .conditional _ condition consequent rest =>
    conditional (lower condition) (block compileIncluded consequent)
      (alternative compileIncluded rest)
  | .loop _ condition body => loop (lower condition) (block compileIncluded body)
  | .inclusion written => inclusion compileIncluded written
  | .expression value => do
    let _ ← (lower value).load

def block (compileIncluded : String → String → Nat → Lower Unit) : Block → Lower Unit
  | .mk _ body => statements compileIncluded body

/-- Lowers statements up to the first one that leaves the function. -/
def statements (compileIncluded : String → String → Nat → Lower Unit) : List Stmt → Lower Unit
  | [] => return
  | first :: rest => do
    statement compileIncluded first
    if !first.isResult then statements compileIncluded rest

def alternative (compileIncluded : String → String → Nat → Lower Unit) :
    Alternative → Lower Unit
  | .absent => return
  | .block body => block compileIncluded body
  | .conditional _ condition consequent rest =>
    conditional (lower condition) (block compileIncluded consequent)
      (alternative compileIncluded rest)

end

end Kronk.Lowering
