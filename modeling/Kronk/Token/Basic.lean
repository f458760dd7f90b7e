import Kronk.Number.Binary64

/-!
# Tokens

A token is a lexeme with the line on which it starts.  Words of the language, booleans, numbers
and strings are lexemes of their own; whatever else stands in a text is a single character.
-/

namespace Kronk

/-- The reserved words that start or continue a statement. -/
inductive Keyword where
  | inclusion
  | function
  | result
  | entity
  | declaration
  | condition
  | otherwise
  | loop
deriving DecidableEq, Repr

namespace Keyword

def spelling : Keyword → String
  | inclusion => "inclu"
  | function => "fn"
  | result => "ret"
  | entity => "Entite"
  | declaration => "soit"
  | condition => "Si"
  | otherwise => "Sinon"
  | loop => "Tantque"

def all : List Keyword :=
  [inclusion, function, result, entity, declaration, condition, otherwise, loop]

def ofSpelling? (text : String) : Option Keyword :=
  all.find? (fun word => word.spelling == text)

end Keyword

def booleanSpelling (value : Bool) : String := if value then "vrai" else "faux"

inductive Lexeme where
  | endOfFile
  | keyword (word : Keyword)
  | identifier (name : String)
  | boolean (value : Bool)
  | number (spelling : String) (value : Binary64)
  | string (content : String)
  | operator (spelling : String)
  | newLine
  | scope
  | char (c : Char)
deriving DecidableEq, Repr

structure Token where
  lexeme : Lexeme
  line : Nat
deriving DecidableEq, Repr

namespace Token

def isChar (token : Token) (c : Char) : Bool := token.lexeme == .char c

def endsStatement (token : Token) : Bool := token.lexeme == .newLine || token.isChar ';'

def isEnd (token : Token) : Bool := token.lexeme == .endOfFile

end Token

end Kronk
