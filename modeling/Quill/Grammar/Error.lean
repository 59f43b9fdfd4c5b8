import Quill.Token.Cursor

/-!
Syntax errors: what the grammar wants at a place where another token stands. Each cause has one
wording, and an error blames one token.
-/
namespace Quill

inductive SyntaxCause where
  | statement
  | nameAfterNew
  | typeAfterName
  | valueAfterType
  | nameAfterBl
  | valueAfterName
  | closeAfterOpen
  | valueAfterArray
  | arrayLiteral
  | elementType
  | closeAfterElementType
  | openAfterElementType
  | arraySize
  | arraySizeRange
  | closeAfterSize
  | openAfterStdout
  | markerName
  | closeAfterMarkerName
  | closeAfterContent
  | expression
  | integerRange
  | floatRange
  | closeAfterExpression
  | closeAfterElements
  deriving DecidableEq, Repr

namespace SyntaxCause

def message : SyntaxCause → String
  | statement => "Unexpected token at start of statement"
  | nameAfterNew => "Expected variable name after 'new'"
  | typeAfterName => "Expected type (string, int, float, bool) after variable name"
  | valueAfterType => "Expected '=' after variable type"
  | nameAfterBl => "Expected variable name after 'bl'"
  | valueAfterName => "Expected '=' after variable name"
  | closeAfterOpen => "Expected ']' after '['"
  | valueAfterArray => "Expected '=' after array declaration"
  | arrayLiteral => "Expected array literal after '='"
  | elementType => "Expected type inside \x7b\x7d"
  | closeAfterElementType => "Expected '\x7d' after type"
  | openAfterElementType => "Expected '[' after type specification"
  | arraySize => "Expected array size"
  | arraySizeRange => "Array size is out of range"
  | closeAfterSize => "Expected ']' after array size"
  | openAfterStdout => "Expected '[' after 'stdout'"
  | markerName => "Expected variable name inside \x7b\x7d"
  | closeAfterMarkerName => "Expected '\x7d' after variable name"
  | closeAfterContent => "Expected ']' after stdout content"
  | expression => "Expected expression"
  | integerRange => "Integer literal is out of range"
  | floatRange => "Float literal is out of range"
  | closeAfterExpression => "Expected ')' after expression"
  | closeAfterElements => "Expected ']' after array elements"

end SyntaxCause

/-- How an error calls the token that it blames. -/
def Token.described (token : Token) : String :=
  match token.kind with
  | .endOfInput => "end of input"
  | .stringLiteral => "\"" ++ token.lexeme ++ "\""
  | _ => "'" ++ token.lexeme ++ "'"

structure SyntaxError where
  cause : SyntaxCause
  /-- The place before the first token that does not fit. -/
  stop : Cursor
  deriving DecidableEq, Repr

namespace SyntaxError

/-- The first token that does not fit, or the last one if the list ends too early. -/
def blamed? (error : SyntaxError) : Option Token :=
  error.stop.currentOrLast?

def message (error : SyntaxError) : String :=
  match error.blamed? with
  | some token => error.cause.message ++ ", found " ++ token.described
  | none => error.cause.message

end SyntaxError

end Quill
