import Quill.Location
import Quill.Number.Binary32
import Quill.Token.Kind

/-!
Syntax trees. Each node carries the place of the token that it was read from; that of a binary node
is its operator.
-/
namespace Quill

/-- A type as it is written in a declaration. -/
inductive TypeName where
  | string | int | float | bool
  deriving DecidableEq, Repr

namespace TypeName

def kind : TypeName → TokenKind
  | string => .stringType
  | int => .intType
  | float => .floatType
  | bool => .boolType

/-- The type that a token writes. The word `char` is reserved and names no type. -/
def ofKind? : TokenKind → Option TypeName
  | .stringType => some string
  | .intType => some int
  | .floatType => some float
  | .boolType => some bool
  | _ => none

end TypeName

inductive Operator where
  | add | subtract | multiply | divide
  | equal | notEqual | less | lessEqual | greater | greaterEqual
  deriving DecidableEq, Repr

namespace Operator

def kind : Operator → TokenKind
  | add => .plus
  | subtract => .minus
  | multiply => .star
  | divide => .slash
  | equal => .equal
  | notEqual => .notEqual
  | less => .less
  | lessEqual => .lessEqual
  | greater => .greater
  | greaterEqual => .greaterEqual

/-- The operator that a token writes. The percent sign is a token and no operator. -/
def ofKind? : TokenKind → Option Operator
  | .plus => some add
  | .minus => some subtract
  | .star => some multiply
  | .slash => some divide
  | .equal => some equal
  | .notEqual => some notEqual
  | .less => some less
  | .lessEqual => some lessEqual
  | .greater => some greater
  | .greaterEqual => some greaterEqual
  | _ => none

/-- The other operators compare. -/
def isArithmetic : Operator → Bool
  | add | subtract | multiply | divide => true
  | _ => false

end Operator

/-- A value that is written out. -/
inductive Literal where
  | integer (value : Int)
  | float (value : Binary32)
  | string (value : String)
  | bool (value : Bool)
  deriving DecidableEq, Repr

inductive Expr where
  | literal (value : Literal) (location : Location)
  | identifier (name : String) (location : Location)
  | binary (left : Expr) (operator : Operator) (right : Expr) (location : Location)
  | array (elements : List Expr) (location : Location)
  deriving Repr

/-- What an array starts with: the values of an expression, or a type and a number of elements. -/
inductive ArrayInit where
  | values (value : Expr)
  | sized (elementType : TypeName) (size : Nat)
  deriving Repr

/-- Text with expressions in it. Parts and expressions take turns, a part first, as long as there
are any of each. -/
structure Interpolation where
  parts : List String
  expressions : List Expr
  location : Location
  deriving Repr

inductive Stmt where
  | scalar (name : String) (type : TypeName) (value : Expr) (location : Location)
  | array (name : String) (init : ArrayInit) (location : Location)
  | output (content : Interpolation) (location : Location)
  deriving Repr

def Stmt.declared? : Stmt → Option String
  | scalar name .. => some name
  | array name .. => some name
  | output .. => none

structure Program where
  statements : List Stmt
  location : Location
  deriving Repr

/-- A program starts where its text does. -/
def Program.ofStatements (statements : List Stmt) : Program :=
  ⟨statements, .start⟩

end Quill
