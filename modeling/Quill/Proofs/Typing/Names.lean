import Quill.Proofs.Typing.Growth

/-!
Programs and findings with other names. Each name of a program, declared or read, is replaced; the
texts between the expressions are no names. A finding speaks of the names that stand in the program,
and an error about an undefined one offers similar names besides.
-/
namespace Quill

section Renamed

variable (f : String → String)

namespace Expr

mutual

def renamed : Expr → Expr
  | literal value location => literal value location
  | identifier name location => identifier (f name) location
  | binary left operator right location => binary left.renamed operator right.renamed location
  | array elements location => array (renamedAll elements) location

def renamedAll : List Expr → List Expr
  | [] => []
  | e :: rest => e.renamed :: renamedAll rest

end

end Expr

def ArrayInit.renamed : ArrayInit → ArrayInit
  | values value => values (value.renamed f)
  | sized type size => sized type size

/-- The texts between the expressions are no names. -/
def Interpolation.renamed (content : Interpolation) : Interpolation :=
  ⟨content.parts, Expr.renamedAll f content.expressions, content.location⟩

def Stmt.renamed : Stmt → Stmt
  | scalar name type value location => scalar (f name) type (value.renamed f) location
  | array name init location => array (f name) (init.renamed f) location
  | output content location => output (content.renamed f) location

def Program.renamed (program : Program) : Program :=
  ⟨program.statements.map (Stmt.renamed f), program.location⟩

def SemanticCause.renamed : SemanticCause → SemanticCause
  | variableRedeclared name => variableRedeclared (f name)
  | arrayRedeclared name => arrayRedeclared (f name)
  | undefined name similar => undefined (f name) (similar.map f)
  | cause => cause

def SemanticError.renamed (error : SemanticError) : SemanticError :=
  ⟨error.cause.renamed f, error.location⟩

namespace SymbolTable

def renamedEntry (entry : String × Symbol) : String × Symbol := (f entry.1, entry.2)

end SymbolTable

mutual

/-- Names are replaced one by one and none is lost, also where two become the same. -/
theorem Expr.mentioned_renamed : ∀ e : Expr, (e.renamed f).mentioned = e.mentioned.map f
  | .literal .. | .identifier .. => rfl
  | .binary left _ right _ => by
    rw [renamed, mentioned, mentioned, List.map_append, mentioned_renamed left,
      mentioned_renamed right]
  | .array elements _ => mentionedAll_renamedAll elements

theorem Expr.mentionedAll_renamedAll :
    ∀ es : List Expr, mentionedAll (renamedAll f es) = (mentionedAll es).map f
  | [] => rfl
  | e :: rest => by
    rw [renamedAll, mentionedAll, mentionedAll, List.map_append, mentioned_renamed e,
      mentionedAll_renamedAll rest]

end

theorem ArrayInit.mentioned_renamed (init : ArrayInit) :
    (init.renamed f).mentioned = init.mentioned.map f := by
  cases init with
  | values value => exact value.mentioned_renamed f
  | sized => rfl

theorem Stmt.mentioned_renamed (stmt : Stmt) :
    (stmt.renamed f).mentioned = stmt.mentioned.map f := by
  cases stmt with
  | scalar name type value => exact value.mentioned_renamed f
  | array name init => exact init.mentioned_renamed f
  | output content => exact Expr.mentionedAll_renamedAll f content.expressions

/-- The declared name is replaced as those that are read are. -/
theorem Stmt.declared?_renamed (stmt : Stmt) :
    (stmt.renamed f).declared? = stmt.declared?.map f := by
  cases stmt <;> rfl

end Renamed

mutual

theorem Expr.renamed_id : ∀ e : Expr, e.renamed id = e
  | .literal .. | .identifier .. => rfl
  | .binary left _ right _ => by rw [renamed, renamed_id left, renamed_id right]
  | .array elements _ => by rw [renamed, renamedAll_id elements]

theorem Expr.renamedAll_id : ∀ es : List Expr, renamedAll id es = es
  | [] => rfl
  | e :: rest => by rw [renamedAll, renamed_id e, renamedAll_id rest]

end

theorem Stmt.renamed_id (stmt : Stmt) : stmt.renamed id = stmt := by
  cases stmt with
  | scalar name type value => rw [renamed, Expr.renamed_id, id]
  | array name init =>
    cases init with
    | values value => rw [renamed, ArrayInit.renamed, Expr.renamed_id, id]
    | sized => rfl
  | output content => rw [renamed, Interpolation.renamed, Expr.renamedAll_id]

/-- A cause with the names offered that are similar among given ones. -/
def SemanticCause.offering (names : List String) : SemanticCause → SemanticCause
  | undefined name _ => undefined name (Text.similarNames name names)
  | cause => cause

def SemanticError.offering (names : List String) (error : SemanticError) : SemanticError :=
  ⟨error.cause.offering names, error.location⟩

/-- Exchanging statements renames nothing, and uses what is proved for a renaming by `id`. -/
theorem SemanticError.renamed_id (error : SemanticError) : error.renamed id = error := by
  obtain ⟨cause, location⟩ := error
  cases cause with
  | undefined => rw [renamed, SemanticCause.renamed, List.map_id, id]
  | _ => rfl

/-- What an analysis reports: an error, or that nothing has read an entry. -/
inductive Finding where
  | error (error : SemanticError)
  | unread (entry : String × Symbol)
  deriving DecidableEq, Repr

namespace Finding

def diagnostic : Finding → Diagnostic
  | error e => e.diagnostic
  | unread entry => unusedWarning entry

def renamed (f : String → String) : Finding → Finding
  | error e => error (e.renamed f)
  | unread entry => unread (SymbolTable.renamedEntry f entry)

/-- The finding is an undefined name, for which similar ones may be offered. -/
def isUndefined : Finding → Bool
  | error ⟨.undefined .., _⟩ => true
  | _ => false

/-- What two findings say is the same, but for the names that they speak of and for what is offered
instead of an undefined one. -/
structure Renames (f : String → String) (finding other : Finding) : Prop where
  kind : other.diagnostic.kind = finding.diagnostic.kind
  location : other.diagnostic.location = finding.diagnostic.location
  endColumn : other.diagnostic.endColumn = finding.diagnostic.endColumn
  message : other.diagnostic.message = (finding.renamed f).diagnostic.message
  suggestion : finding.isUndefined = false →
    other.diagnostic.suggestion = finding.diagnostic.suggestion

end Finding

/-- The findings of an analysis: its errors, then the names that a warning is due for. -/
def Analysis.findings (analysis : Analysis) : List Finding :=
  analysis.errors.map .error ++ analysis.unused.map .unread

theorem Sink.records_analyse_findings (sink : Sink) (symbols : SymbolTable) (program : Program) :
    (sink.analyse symbols program).2.records = sink.records ++
      ((sink.analyse symbols program).1.findings.map Finding.diagnostic).map sink.stamp := by
  have analysed : (sink.analyse symbols program).1 = Analysis.ofProgram symbols program := rfl
  rw [records_analyse, analysed, Analysis.findings]
  simp only [List.map_append, List.map_map]
  rfl

namespace SemanticError

variable {f : String → String} (names : List String)

/-- An error of a statement, and the one of the statement under other names. -/
theorem renames_offering (error : SemanticError) :
    Finding.Renames f (.error error) (.error ((error.renamed f).offering names)) := by
  obtain ⟨cause, location⟩ := error
  refine ⟨rfl, rfl, rfl, ?_, fun defined => ?_⟩
  · cases cause <;> rfl
  · cases cause with
    | undefined => cases defined
    | _ => rfl

end SemanticError

theorem SymbolTable.renames_unread (f : String → String) (entry : String × Symbol) :
    Finding.Renames f (.unread entry) (.unread (renamedEntry f entry)) :=
  ⟨rfl, rfl, rfl, rfl, fun _ => rfl⟩

end Quill
