import Kronk.IR.Instruction

/-!
# Functions and modules of emitted code

A function is a list of labelled blocks, or a declaration if it has none.  A module lists its
structures, its constant texts and its functions in the order in which they came into being, and is
written in that order.
-/

namespace Kronk.IR

/-- A labelled list of instructions.  A block under construction has no terminator yet. -/
structure Block where
  label : String
  instructions : List Instruction := []
  terminator : Option Terminator := none
deriving Repr

/-- A function; without blocks it is a declaration of a function defined elsewhere. -/
structure Function where
  name : String
  internal : Bool := false
  result : Ty
  parameters : List (String × Ty)
  variadic : Bool := false
  blocks : List Block := []
deriving Repr

namespace Function

def callee (function : Function) : Callee :=
  ⟨function.name, function.result, function.parameters.map Prod.snd, function.variadic⟩

def parameterValues (function : Function) : List Value :=
  function.parameters.mapIdx (fun position parameter =>
    .parameter position parameter.1 parameter.2)

def temporaries (function : Function) : List Nat :=
  (function.blocks.flatMap Block.instructions).filterMap fun instruction =>
    match instruction.result with
    | some (.temporary index) => some index
    | _ => none

def blockText (number : Nat → Nat) (block : Block) : String :=
  Text.identifier block.label ++ ":\n" ++
    String.join (block.instructions.map fun instruction =>
      "\t" ++ instruction.text number ++ "\n") ++
    match block.terminator with
    | some terminator => "\t" ++ terminator.text number ++ "\n"
    | none => ""

def headText (function : Function) : String :=
  let parameters := function.parameters.map fun parameter =>
    parameter.2.text ++ " %" ++ Text.identifier parameter.1
  let all := if function.variadic then parameters ++ ["..."] else parameters
  function.result.text ++ " @" ++ Text.identifier function.name ++ "(" ++
    String.intercalate ", " all ++ ")"

def text (function : Function) : String :=
  if function.blocks.isEmpty then "declare " ++ function.headText ++ "\n"
  else
    let temporaries := function.temporaries
    let number := fun index => temporaries.idxOf index
    let linkage := if function.internal then "internal " else ""
    "define " ++ linkage ++ function.headText ++ " \x7b\n" ++
      String.intercalate "\n" (function.blocks.map (blockText number)) ++ "\x7d\n"

end Function

structure Module where
  source : String
  structures : List (String × List Ty) := []
  texts : List String := []
  functions : List Function := []

namespace Module

def textLabel (position : Nat) : String :=
  if position = 0 then ".str" else ".str." ++ toString position

def structureText (definition : String × List Ty) : String :=
  "%" ++ Text.identifier definition.1 ++ " = type " ++ (Ty.record definition.2).text ++ "\n"

/-- How a constant text is defined; it ends with a zero byte. -/
def constantText (position : Nat) (content : String) : String :=
  let bytes := Text.bytes content ++ [0]
  "@" ++ Text.identifier (textLabel position) ++ " = private constant " ++
    (Ty.array bytes.length .i8).text ++ " c\"" ++ Text.escape bytes ++ "\"\n"

/-- How a module is written: its sections with an empty line between them. -/
def text (module : Module) : String :=
  let sections :=
    ["source_filename = " ++ Text.quote module.source ++ "\n",
      String.join (module.structures.map structureText),
      String.join (module.texts.mapIdx constantText),
      String.intercalate "\n" (module.functions.map Function.text)]
  String.intercalate "\n" (sections.filter (· ≠ ""))

end Module

end Kronk.IR
