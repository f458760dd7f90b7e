import Kronk.Number.Shortest
import Kronk.Operator
import Kronk.Token.Basic

/-!
# The flat form of a token

Reports show a token as a record: the number of its kind, its spelling, its value and its
character, each empty where it does not apply.  Messages describe a token by this record.
-/

namespace Kronk

/-- The kinds of token, in the order of their numbers. -/
def tokenKindNames : List String :=
  ["end of file", "include", "function", "return", "entity", "declaration", "if", "else", "while",
    "identifier", "boolean literal", "numeric literal", "string literal", "operator", "new line",
    "character"]

def tokenKindName (kind : Nat) : String :=
  tokenKindNames.getD kind ("token(" ++ toString kind ++ ")")

structure TokenRecord where
  kind : Nat
  text : String := ""
  number : Binary64 := Binary64.zero
  code : Nat := 0
  line : Nat := 0

namespace TokenRecord

def charKind : Nat := 15

def operatorKind : Nat := 13

def keywordKind : Keyword → Nat
  | .inclusion => 1
  | .function => 2
  | .result => 3
  | .entity => 4
  | .declaration => 5
  | .condition => 6
  | .otherwise => 7
  | .loop => 8

def ofToken (token : Token) : TokenRecord :=
  match token.lexeme with
  | .endOfFile => { kind := 0, line := token.line }
  | .keyword word => { kind := keywordKind word, text := word.spelling, line := token.line }
  | .identifier name => { kind := 9, text := name, line := token.line }
  | .boolean value => { kind := 10, text := booleanSpelling value, line := token.line }
  | .number spelling value => { kind := 11, text := spelling, number := value, line := token.line }
  | .string content => { kind := 12, text := content, line := token.line }
  | .operator spelling => { kind := operatorKind, text := spelling, line := token.line }
  | .newLine => { kind := 14, line := token.line }
  | .scope => { kind := charKind, text := "::", line := token.line }
  | .char c => { kind := charKind, code := c.toNat, line := token.line }

/-- The character with a given code point; a number that is none stands for `U+FFFD`. -/
def charOfCode (code : Nat) : Char :=
  if code.isValidChar then Char.ofNat code else '�'

def describe (token : TokenRecord) : String :=
  let name := tokenKindName token.kind
  match token.kind with
  | 9 | 10 | 13 => name ++ " `" ++ token.text ++ "`"
  | 12 => name ++ " \"" ++ token.text ++ "\""
  | 11 => name ++ " " ++ token.number.text
  | 15 =>
    if token.text ≠ "" then "`" ++ token.text ++ "`"
    else "`" ++ String.ofList [charOfCode token.code] ++ "`"
  | _ => name

def isChar (token : TokenRecord) (code : Nat) : Bool :=
  token.kind == charKind && token.text == "" && token.code == code

def isScope (token : TokenRecord) : Bool := token.kind == charKind && token.text == "::"

def isOperator (token : TokenRecord) (spelling : String) : Bool :=
  token.kind == operatorKind && token.text == spelling

end TokenRecord

end Kronk
