import Quill.Proofs.Typing.Program

/-!
The analysis of a program in pieces. The statements of a second piece are checked with the symbols
that the first one leaves, so two calls find the errors of a single one and leave its symbols. Each
call warns of all names that are unread when it ends, and so the warnings of the last call count.
-/
namespace Quill

def Program.append (program more : Program) : Program :=
  ⟨program.statements ++ more.statements, program.location⟩

theorem Checked.andThen_assoc {α β γ : Type} (checked : Checked α)
    (next : α → SymbolTable → Checked β) (last : β → SymbolTable → Checked γ) :
    (checked.andThen next).andThen last =
      checked.andThen fun value symbols => (next value symbols).andThen last := by
  simp only [andThen, List.append_assoc]

/-- Statements in two pieces: the second one goes on with the symbols that the first one leaves. -/
theorem Stmt.checkAll_append (symbols : SymbolTable) (stmts more : List Stmt) :
    checkAll symbols (stmts ++ more) =
      (checkAll symbols stmts).andThen fun ok symbols =>
        (checkAll symbols more).andThen fun moreOk symbols => .clean (ok && moreOk) symbols := by
  induction stmts generalizing symbols with
  | nil => simp [checkAll, Checked.andThen, Checked.clean]
  | cons stmt rest ih =>
    rw [List.cons_append, checkAll, checkAll, Checked.andThen_assoc]
    simp only [ih, Checked.andThen_assoc]
    simp only [Checked.andThen, Checked.clean, Bool.and_assoc, List.append_nil, List.nil_append]

/-- What two analyses come to when the second one goes on with the symbols of the first. -/
def Analysis.followedBy (first second : Analysis) : Analysis :=
  ⟨first.ok && second.ok, second.symbols, first.errors ++ second.errors⟩

theorem Analysis.ofProgram_append (symbols : SymbolTable) (program more : Program) :
    ofProgram symbols (program.append more) =
      (ofProgram symbols program).followedBy
        (ofProgram (ofProgram symbols program).symbols more) := by
  have run := Stmt.checkAll_append symbols program.statements more.statements
  simp only [ofProgram, Program.append, run, followedBy, Checked.andThen, Checked.clean,
    List.append_nil]
  congr 1
  -- No errors in the whole means none in either piece.
  cases (Stmt.checkAll symbols program.statements).errors <;> simp [Bool.and_assoc]

namespace Sink

/-- Two calls, whatever sinks they and a single call have. Each call adds its errors and then its
warnings; the errors of the single call are those of the two calls, its warnings those of the
second call. -/
theorem analyse_append (first second whole : Sink) (symbols : SymbolTable)
    (program more : Program) :
    let one := first.analyse symbols program
    let two := second.analyse one.1.symbols more
    let both := whole.analyse symbols (program.append more)
    both.1.symbols = two.1.symbols ∧
    (both.1.ok = true ↔ one.1.ok = true ∧ two.1.ok = true) ∧
    ∃ errors warnings moreErrors moreWarnings : List Diagnostic,
      (∀ d ∈ errors ++ moreErrors, d.isError = true) ∧
      (∀ d ∈ warnings ++ moreWarnings, d.isError = false) ∧
      one.2.records = first.records ++ (errors ++ warnings).map first.stamp ∧
      two.2.records = second.records ++ (moreErrors ++ moreWarnings).map second.stamp ∧
      both.2.records =
        whole.records ++ (errors ++ moreErrors ++ moreWarnings).map whole.stamp := by
  have same := Analysis.ofProgram_append symbols program more
  let one := Analysis.ofProgram symbols program
  let two := Analysis.ofProgram one.symbols more
  have left := congrArg Analysis.symbols same
  refine ⟨left, ?_, one.errors.map SemanticError.diagnostic,
    one.unused.map unusedWarning, two.errors.map SemanticError.diagnostic,
    two.unused.map unusedWarning, ?_, ?_, ?_, ?_, ?_⟩
  · have ok : (whole.analyse symbols (program.append more)).1.ok = (one.ok && two.ok) :=
      congrArg Analysis.ok same
    rw [ok, Bool.and_eq_true]
    rfl
  · rw [← List.map_append]
    exact isError_of_mem_errors _
  · rw [← List.map_append]
    exact isError_of_mem_warnings _
  · rw [records_analyse, List.map_append]
  · rw [records_analyse, List.map_append]
    rfl
  · rw [records_analyse, same, List.map_append, Analysis.followedBy, List.map_append]
    rfl

end Sink

end Quill
