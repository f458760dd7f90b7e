import Kronk.Operator
import Kronk.Source.ReadError

/-!
# What can be wrong with the meaning of a statement
-/

namespace Kronk.Lowering

inductive LowerError where
  | assignmentTarget
  | noValue
  | unknownIdentifier (name : String)
  | indexType
  | unknownType (name : String)
  | nestedEntity
  | fieldValueType (field entity module : String)
  | unknownListField (field type : String)
  | sizeAssignment
  | unknownField (field entity module : String)
  | notEntity
  | elementType (position : Nat)
  | notList
  | concatenation
  | primitiveToAggregate
  | assignmentTypes
  | characterValue
  | notBothLists
  | onlyConcatenation
  | operandTypes (operator : Operator)
  | booleanOperator (operator : Operator)
  | realOperator (operator : Operator)
  | unaryBoolean (operator : Operator)
  | unaryReal (operator : Operator)
  | unaryOperand (operator : Operator)
  | condition
  | nestedFunction
  | functionExists (symbol : String)
  | resultOutside
  | resultType
  | unknownFunction (module symbol : String)
  | tooFewArguments (symbol : String)
  | tooManyArguments (symbol : String)
  | argumentType (position : Nat) (symbol : String)
  | repeatedAlias (localName : String)
  | unknownRuntime (name : String)
deriving DecidableEq, Repr

open Source (marked)

def LowerError.message : LowerError → String
  | assignmentTarget => "Invalid expression on the left hand side of assigment"
  | noValue => "This expression doesn't produce a value"
  | unknownIdentifier name => "Unknown Identifier " ++ marked name
  | indexType => "List indices must be real numbers"
  | unknownType name => "The type " ++ marked name ++ " doesn't exist !!"
  | nestedEntity => "Kronk doesn't allow nesting of entity type definitions"
  | fieldValueType field entity module =>
    "Trying to assign wrong type to " ++ marked field ++ " in creation of entity of type " ++
      marked entity ++ " defined in the module " ++ module
  | unknownListField field type =>
    marked field ++ " is not a valid field of entity type " ++ marked type
  | sizeAssignment => "kronk can't allow you to modify the size property of a liste"
  | unknownField field entity module =>
    marked field ++ " is not a valid field of entity type " ++ marked entity ++
      " defined in the module " ++ module
  | notEntity => "Trying to access a field of a value that is not an entity !!"
  | elementType position =>
    "Element #" ++ toString position ++ " in initializer list different from previous elements"
  | notList => "Trying to perform a list operation on a value that is not a liste !!"
  | concatenation => "Trying to concatenate lists with unequal types"
  | primitiveToAggregate => "Trying to assign a primitive to an entity"
  | assignmentTypes => "Assignment operand types do not match"
  | characterValue => "Trying to replace a character of a string with a non-string value"
  | notBothLists =>
    "Your trying to perform a binary operation on two entities that are not both listes !!"
  | onlyConcatenation =>
    "The only binary operation allowed between two entities is list concatenation"
  | operandTypes operator =>
    "Incompatible operand types for the binary operator " ++ marked operator.spelling
  | booleanOperator operator =>
    "Undefined binary operator " ++ marked operator.spelling ++ " between two booleans"
  | realOperator operator =>
    "Undefined binary operator " ++ marked operator.spelling ++ " between two real numbers"
  | unaryBoolean operator =>
    "Undefined unary operator " ++ marked operator.spelling ++ " for a boolean"
  | unaryReal operator =>
    "Undefined unary operator " ++ marked operator.spelling ++ " for a real number"
  | unaryOperand operator =>
    "Incompatible operand type for the unary operator " ++ marked operator.spelling
  | condition => "Condition must be a boolean"
  | nestedFunction => "kronk doesn't allow nesting of function definitions"
  | functionExists symbol =>
    "The function " ++ marked symbol ++ " is already defined in this module"
  | resultOutside => "return statements must only be in function definitions"
  | resultType => "Return value type does not correspond to function return type"
  | unknownFunction module symbol =>
    "No function in the module " ++ marked module ++ " matches the name " ++ marked symbol
  | tooFewArguments symbol => "Too few arguments in the function call to " ++ marked symbol
  | tooManyArguments symbol => "Too many arguments in the function call to " ++ marked symbol
  | argumentType position symbol =>
    "Type mismatch for argument #" ++ toString position ++ " in function call to " ++
      marked symbol
  | repeatedAlias localName =>
    "An included module is already identified by " ++ marked localName ++ " !!"
  | unknownRuntime name => marked name ++ " is not a kronk runtime module !!"

end Kronk.Lowering
