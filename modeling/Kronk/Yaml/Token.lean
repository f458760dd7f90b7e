/-!
# The tokens of a document

Indentation becomes visible in the tokens: a block starts and ends with tokens of its own, so that
what follows needs no columns.
-/

namespace Kronk.Yaml

/-- What a token is.  Lists and tables are written in brackets, sequences and mappings as blocks. -/
inductive TokenKind where
  | streamEnd
  | documentStart
  | documentEnd
  | sequenceStart
  | mappingStart
  | blockEnd
  | listStart
  | listEnd
  | tableStart
  | tableEnd
  | item
  | comma
  | key
  | value
  | scalar (text : String) (plain : Bool)
deriving DecidableEq, Repr

structure Token where
  kind : TokenKind
  first : Nat
  last : Nat
deriving DecidableEq, Repr

end Kronk.Yaml
