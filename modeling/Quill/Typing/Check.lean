import Quill.Typing.Error
import Quill.Typing.SymbolTable

/-!
The analysis of programs: one pass from top to bottom that types expressions, enters declarations
and marks the names that are read. An expression with an error in it has type `unknown`, and nothing
that is made of it is reported again.
-/
namespace Quill

/-- What checking a phrase gives: a verdict, the symbols after it and its errors in order. -/
structure Checked (α : Type) where
  value : α
  symbols : SymbolTable
  errors : List SemanticError
  deriving Repr

namespace Checked

/-- A verdict that leaves the symbols alone and finds no fault. -/
def clean (value : α) (symbols : SymbolTable) : Checked α := ⟨value, symbols, []⟩

def faulty (value : α) (symbols : SymbolTable) (cause : SemanticCause) (location : Location) :
    Checked α :=
  ⟨value, symbols, [⟨cause, location⟩]⟩

def andThen (first : Checked α) (next : α → SymbolTable → Checked β) : Checked β :=
  let second := next first.value first.symbols
  ⟨second.value, second.symbols, first.errors ++ second.errors⟩

end Checked

def Literal.type : Literal → ValueType
  | integer _ => .int
  | float _ => .float
  | string _ => .string
  | bool _ => .bool

/-- The type of an arithmetic result, or what is wrong with the operands. A sum with a string on
either side is a string. -/
def arithmeticType (operator : Operator) (left right : ValueType) :
    Except SemanticCause ValueType :=
  if left = .string ∨ right = .string then
    if operator = .add then .ok .string else .error .arithmeticOnString
  else if left = .int ∧ right = .int then .ok .int
  else if left.isNumeric ∧ right.isNumeric then .ok .float
  else .error (.arithmeticMismatch left right)

/-- The type of a comparison, or what is wrong with the operands. -/
def comparisonType (left right : ValueType) : Except SemanticCause ValueType :=
  if left = right ∨ (left.isNumeric ∧ right.isNumeric) then .ok .bool
  else .error (.comparisonMismatch left right)

/-- The type of a binary expression out of the types of its operands. -/
def operationType (operator : Operator) (left right : ValueType) :
    Except SemanticCause ValueType :=
  if left = .unknown ∨ right = .unknown then .ok .unknown
  else if operator.isArithmetic then arithmeticType operator left right
  else comparisonType left right

/-- The type that all elements of an array share, or what is wrong with them; nothing if there are
no elements. -/
def elementType? : List ValueType → Option (Except SemanticCause ValueType)
  | [] => none
  | first :: rest =>
    some (if .unknown ∈ first :: rest then .ok .unknown
      else if ∀ type ∈ rest, type = first then .ok first
      else .error (.mixedElements first))

/-- A type, or `unknown` and an error at `location`. -/
def Checked.ofType (symbols : SymbolTable) (location : Location) :
    Except SemanticCause ValueType → Checked ValueType
  | .ok type => clean type symbols
  | .error cause => faulty .unknown symbols cause location

namespace Expr

mutual

/-- Types an expression. Names that are read are marked. -/
def check (symbols : SymbolTable) : Expr → Checked ValueType
  | literal value _ => .clean value.type symbols
  | identifier name location =>
    match symbols.get? name with
    | some symbol => .clean symbol.type (symbols.markUsed name)
    | none =>
      .faulty .unknown symbols (.undefined name (Text.similarNames name symbols.names)) location
  | binary left operator right location =>
    (check symbols left).andThen fun leftType symbols =>
      (check symbols right).andThen fun rightType symbols =>
        .ofType symbols location (operationType operator leftType rightType)
  | array elements location =>
    (checkAll symbols elements).andThen fun types symbols =>
      match elementType? types with
      | none => .clean .array symbols
      | some type =>
        (Checked.ofType symbols location type).andThen fun type symbols =>
          .clean (if type = .unknown then .unknown else .array) symbols

def checkAll (symbols : SymbolTable) : List Expr → Checked (List ValueType)
  | [] => .clean [] symbols
  | expr :: rest =>
    (check symbols expr).andThen fun type symbols =>
      (checkAll symbols rest).andThen fun types symbols => .clean (type :: types) symbols

end

end Expr

/-- Enters a name that is not declared yet. -/
def SymbolTable.enter (symbols : SymbolTable) (name : String) (symbol : Symbol) : Checked Bool :=
  match symbols.declare? name symbol with
  | some symbols => .clean true symbols
  | none => .clean false symbols

/-- Checks what an array starts with and gives the type of its elements, if the array can be
declared. -/
def ArrayInit.check (symbols : SymbolTable) (location : Location) :
    ArrayInit → Checked (Option ValueType)
  | sized type _ => .clean (some (.ofTypeName type)) symbols
  | values (.array elements place) =>
    (Expr.checkAll symbols elements).andThen fun types symbols =>
      match elementType? types with
      | none => .clean (some .array) symbols
      | some type =>
        (Checked.ofType symbols place type).andThen fun type symbols => .clean (some type) symbols
  | values other =>
    (other.check symbols).andThen fun type symbols =>
      if type = .unknown then .clean none symbols
      else .faulty none symbols .initializerNotArray location

namespace Stmt

/-- Checks a statement. It is in order, or not. -/
def check (symbols : SymbolTable) : Stmt → Checked Bool
  | scalar name type value location =>
    if symbols.contains name then .faulty false symbols (.variableRedeclared name) location
    else
      (value.check symbols).andThen fun valueType symbols =>
        let declared := ValueType.ofTypeName type
        if valueType ≠ .unknown ∧ valueType ≠ declared then
          .faulty false symbols (.assignmentMismatch valueType declared) location
        else symbols.enter name (.unread declared false location)
  | array name init location =>
    if symbols.contains name then .faulty false symbols (.arrayRedeclared name) location
    else
      (init.check symbols location).andThen fun elementType symbols =>
        match elementType with
        | some type => symbols.enter name (.unread type true location)
        | none => .clean false symbols
  | output content _ =>
    (Expr.checkAll symbols content.expressions).andThen fun types symbols =>
      .clean (.unknown ∉ types) symbols

/-- Checks statements in order, each after the ones before it, whatever they gave. -/
def checkAll (symbols : SymbolTable) : List Stmt → Checked Bool
  | [] => .clean true symbols
  | stmt :: rest =>
    (check symbols stmt).andThen fun ok symbols =>
      (checkAll symbols rest).andThen fun restOk symbols => .clean (ok && restOk) symbols

end Stmt

structure Analysis where
  /-- Every statement is in order and there is no error. -/
  ok : Bool
  symbols : SymbolTable
  errors : List SemanticError
  deriving Repr

/-- Analyses a program that follows the declarations of `symbols`. -/
def Analysis.ofProgram (symbols : SymbolTable) (program : Program) : Analysis :=
  let checked := Stmt.checkAll symbols program.statements
  ⟨checked.value && checked.errors.isEmpty, checked.symbols, checked.errors⟩

/-- The names that a warning is due for: those that nothing has read yet. -/
def Analysis.unused (analysis : Analysis) : List (String × Symbol) :=
  analysis.symbols.unused

end Quill
