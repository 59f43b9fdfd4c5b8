import Quill.Text.Similar
import Quill.Typing.ValueType

/-!
Semantic errors: what the analysis of a program complains of, where, and what it suggests.
-/
namespace Quill

inductive SemanticCause where
  | variableRedeclared (name : String)
  | arrayRedeclared (name : String)
  | assignmentMismatch (value declared : ValueType)
  | initializerNotArray
  /-- A name that is not declared, with declared names that are like it. -/
  | undefined (name : String) (similar : List String)
  | arithmeticOnString
  | arithmeticMismatch (left right : ValueType)
  | comparisonMismatch (left right : ValueType)
  /-- An array of elements that are not all of its first element's type. -/
  | mixedElements (first : ValueType)
  deriving DecidableEq, Repr

namespace SemanticCause

def message : SemanticCause → String
  | variableRedeclared name => "Variable '" ++ name ++ "' is already declared"
  | arrayRedeclared name => "Array '" ++ name ++ "' is already declared"
  | assignmentMismatch value declared =>
    "Type mismatch: cannot assign " ++ value.text ++ " to variable of type " ++ declared.text
  | initializerNotArray => "Array initializer must be an array literal"
  | undefined name _ => "Undefined variable '" ++ name ++ "'"
  | arithmeticOnString => "Cannot perform arithmetic operations on strings"
  | arithmeticMismatch left right =>
    "Type mismatch in arithmetic operation: " ++ left.text ++ " and " ++ right.text
  | comparisonMismatch left right => "Cannot compare " ++ left.text ++ " with " ++ right.text
  | mixedElements _ => "Array elements must have the same type"

def suggestion : SemanticCause → String
  | variableRedeclared _ => "Use a different variable name or remove the duplicate declaration"
  | arrayRedeclared _ => "Use a different array name"
  | assignmentMismatch .. => "Change the variable type or provide a value of the correct type"
  | initializerNotArray => "Use [element1, element2, ...] syntax for array initialization"
  | undefined _ similar =>
    (Text.didYouMean? similar).getD "Declare the variable before using it"
  | arithmeticOnString => "Use string concatenation (+) or convert to numbers"
  | arithmeticMismatch .. => "Ensure both operands are numbers"
  | comparisonMismatch .. => "Ensure both operands are of compatible types"
  | mixedElements first => "Ensure all array elements are of type " ++ first.text

end SemanticCause

structure SemanticError where
  cause : SemanticCause
  location : Location
  deriving DecidableEq, Repr

end Quill
