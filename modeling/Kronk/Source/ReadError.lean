/-!
# What can be wrong with the form of a source text
-/

namespace Kronk.Source

inductive ReadError where
  | continuation
  | statementEnd
  | blockStart
  | blockEnd
  | variableName
  | declarationBody
  | loopBlock
  | runtimeModule
  | moduleName
  | aliasKeyword
  | aliasName (subject : String)
  | functionName
  | parameterList
  | parameterName
  | parameterType (name : String)
  | parameterEnd
  | typeName
  | elementType
  | elementTypeEnd
  | unknownAlias (localName : String)
  | foreignName (localName : String)
  | unknownType (name : String)
  | assignmentTarget
  | malformedExpression
  | malformedAccess
  | notUnary (operator : String)
  | closingParenthesis
  | foreignCall (name : String)
  | argumentEnd
  | fieldName
  | entityName
  | entityExists (name : String)
  | entityBody (name : String)
  | emptyEntity
  | fieldDefinition
  | repeatedField (field entity : String)
  | fieldType (field : String)
  | literalStart
  | literalContent
  | literalField
  | unknownField (field entity : String)
  | fieldValue (field : String)
  | repeatedValue (field : String)
  | literalEnd
  | literalTooLong (entity : String)
  | elementEnd (position : Nat)
  | emptyAccess
  | accessEnd
deriving DecidableEq, Repr

/-- A name between the marks that messages put around names. -/
def marked (name : String) : String := "<< " ++ name ++ " >>"

def ReadError.message : ReadError → String
  | continuation => "Expected newline after \\"
  | statementEnd => "A statment must end with a new line or semi-colon !!"
  | blockStart => "Expected '\x7b' "
  | blockEnd => "Expected '\x7d' "
  | variableName => "Expected identifier string for the name of the variable to be declared "
  | declarationBody => "Expected either ':' or '=' after start of declaration"
  | loopBlock => "Expected '\x7b' after loop declaration"
  | runtimeModule => "Expected identifier for standard library module to be included"
  | moduleName => "Expected identifier for module to be included"
  | aliasKeyword => "Expected alias keyword 'as' "
  | aliasName subject => "Expected an identifier aliasing the module " ++ marked subject
  | functionName => "Expected an identifier for the function name"
  | parameterList => "Expected '(' after function name"
  | parameterName => "Expected an identifier string for a parameter"
  | parameterType name => "Expected ':' after parameter " ++ marked name
  | parameterEnd => "Expected ',' or ')' after parameter type"
  | typeName => "Expected a type identifier"
  | elementType => "Expected '(' after liste keyword"
  | elementTypeEnd => "Expected ')'"
  | unknownAlias localName => "No module is included under the name " ++ marked localName
  | foreignName localName => "Expected an identifier after " ++ marked (localName ++ "::")
  | unknownType name => "The type " ++ marked name ++ " doesn't exist !!"
  | assignmentTarget => "Invalid expression on the left hand side of assigment"
  | malformedExpression => "Malformed Expression"
  | malformedAccess => "Malformed expression"
  | notUnary operator => marked operator ++ " is not a unary operator"
  | closingParenthesis => "expected ')' "
  | foreignCall name => "Expected '(' after " ++ marked name
  | argumentEnd => "Expected ','"
  | fieldName => "Expected alphanumeric string for a field"
  | entityName => "Expected identifier string for the name of the entity type"
  | entityExists name => "Entity type " ++ marked name ++ " already exists"
  | entityBody name => "Expected '\x7b' to follow " ++ marked name
  | emptyEntity => "kronk cannot create an entity with zero fields"
  | fieldDefinition => "Expected an identifer string for a field"
  | repeatedField field entity => marked field ++ " is already a field of " ++ marked entity
  | fieldType field => "Expected ':' after " ++ marked field
  | literalStart => "Expected '('"
  | literalContent => "Unexpected character after '('"
  | literalField => "Expected a field after ',' "
  | unknownField field entity => marked field ++ " is not a valid field of " ++ marked entity
  | fieldValue field => "Expected '=' after " ++ marked field
  | repeatedValue field => marked field ++ " already has a value"
  | literalEnd => "Expected ',' "
  | literalTooLong entity => "Definition is too long for entityType " ++ marked entity
  | elementEnd position => "Expected ',' after list element number " ++ marked (toString position)
  | emptyAccess => "How are you trying to access the list ??"
  | accessEnd => "Expected ']' "

end Kronk.Source
