import Quill.Tree.Basic

/-!
Types of values, as the analysis finds them.
-/
namespace Quill

inductive ValueType where
  | string | int | float | bool
  | array
  /-- The type of an expression in which an error has been found already. -/
  | unknown
  deriving DecidableEq, Repr

namespace ValueType

def text : ValueType → String
  | string => "string"
  | int => "int"
  | float => "float"
  | bool => "bool"
  | array => "array"
  | unknown => "unknown"

def all : List ValueType := [string, int, float, bool, array, unknown]

def ofText? (text : String) : Option ValueType :=
  all.find? (·.text == text)

def isNumeric : ValueType → Bool
  | int | float => true
  | _ => false

def ofTypeName : TypeName → ValueType
  | .string => string
  | .int => int
  | .float => float
  | .bool => bool

end ValueType

end Quill
