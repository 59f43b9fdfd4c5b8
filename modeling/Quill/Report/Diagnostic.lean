import Quill.Location

/-!
Diagnostics: what is told about a program, with the place that it points at.
-/
namespace Quill

inductive DiagnosticKind where
  | lexical | syntactic | semantic | warning
  deriving DecidableEq, Repr

namespace DiagnosticKind

def text : DiagnosticKind → String
  | lexical => "lexical error"
  | syntactic => "syntax error"
  | semantic => "semantic error"
  | warning => "warning"

def all : List DiagnosticKind := [lexical, syntactic, semantic, warning]

def ofText? (text : String) : Option DiagnosticKind :=
  all.find? (·.text == text)

/-- All kinds but warnings keep a program from being compiled. -/
def isError : DiagnosticKind → Bool
  | warning => false
  | _ => true

theorem isError_iff {kind : DiagnosticKind} : kind.isError ↔ kind ≠ .warning := by
  cases kind <;> decide

end DiagnosticKind

structure Diagnostic where
  kind : DiagnosticKind
  message : String
  location : Location
  /-- The last column that is pointed at. -/
  endColumn : Nat
  /-- How to mend it, or no text. -/
  suggestion : String
  /-- The label of the file, if it has one. -/
  file : Option String
  deriving DecidableEq, Repr

namespace Diagnostic

def pointing (kind : DiagnosticKind) (message suggestion : String) (location : Location) :
    Diagnostic :=
  ⟨kind, message, location, location.column, suggestion, none⟩

/-- Points at all columns up to a given one. The first column stays. -/
def upTo (d : Diagnostic) (endColumn : Nat) : Diagnostic :=
  { d with endColumn := max endColumn d.location.column }

def isError (d : Diagnostic) : Bool := d.kind.isError

/-- The place: file, line and column, the file only if there is a label. -/
def place (d : Diagnostic) : String :=
  (match d.file with
    | some file => file ++ ":"
    | none => "") ++
    toString d.location.line ++ ":" ++ toString d.location.column

def summary (d : Diagnostic) : String :=
  d.kind.text ++ ": " ++ d.message ++ " at " ++ d.place

end Diagnostic

end Quill
