import Quill.Compilation
import Quill.Proofs.Report.Recording
import Quill.Proofs.Typing.Program

/-!
The analysis of a program with a symbol table and a sink at hand: each error is recorded where it is
found, the warnings follow, and the verdict counts the errors of the sink before and after. It gives
the analysis of `Sink.analyse` and records the same (`Recording.analyse_eq`).
-/
namespace Quill.Recording

variable {α β : Type}

/-- A check that may change the symbols and record errors. -/
def Checker (α : Type) := SymbolTable → Recording (α × SymbolTable)

namespace Checker

instance : Monad Checker where
  pure value symbols := pure (value, symbols)
  bind first next symbols := do
    let step ← first symbols
    next step.1 step.2

def symbols : Checker SymbolTable := fun symbols => pure (symbols, symbols)

def markUsed (name : String) : Checker Unit := fun symbols => pure ((), symbols.markUsed name)

def declare (name : String) (symbol : Symbol) : Checker Bool := fun symbols =>
  match symbols.declare? name symbol with
  | some symbols => pure (true, symbols)
  | none => pure (false, symbols)

def complain (cause : SemanticCause) (location : Location) : Checker Unit := fun symbols => do
  record (SemanticError.diagnostic ⟨cause, location⟩)
  pure ((), symbols)

end Checker

open Checker

def arithmetic (operator : Operator) (left right : ValueType) (location : Location) :
    Checker ValueType :=
  if left = .string ∨ right = .string then
    if operator = .add then pure .string
    else do
      complain .arithmeticOnString location
      pure .unknown
  else if left = .int ∧ right = .int then pure .int
  else if left.isNumeric ∧ right.isNumeric then pure .float
  else do
    complain (.arithmeticMismatch left right) location
    pure .unknown

def comparison (left right : ValueType) (location : Location) : Checker ValueType :=
  if left = right ∨ (left.isNumeric ∧ right.isNumeric) then pure .bool
  else do
    complain (.comparisonMismatch left right) location
    pure .unknown

/-- Types a binary expression whose operands have been typed. -/
def operation (operator : Operator) (left right : ValueType) (location : Location) :
    Checker ValueType :=
  if left = .unknown ∨ right = .unknown then pure .unknown
  else if operator.isArithmetic then arithmetic operator left right location
  else comparison left right location

/-- The type of the elements of an array that have been typed, if there are any. -/
def elementType (location : Location) : List ValueType → Checker (Option ValueType)
  | [] => pure none
  | first :: rest =>
    if .unknown ∈ first :: rest then pure (some .unknown)
    else if ∀ type ∈ rest, type = first then pure (some first)
    else do
      complain (.mixedElements first) location
      pure (some .unknown)

mutual

def checkExpr : Expr → Checker ValueType
  | .literal value _ => pure value.type
  | .identifier name location => do
    let table ← symbols
    match table.get? name with
    | some symbol =>
      markUsed name
      pure symbol.type
    | none =>
      complain (.undefined name (Text.similarNames name table.names)) location
      pure .unknown
  | .binary left operator right location => do
    let leftType ← checkExpr left
    let rightType ← checkExpr right
    operation operator leftType rightType location
  | .array elements location => do
    let types ← checkExprs elements
    let type ← elementType location types
    pure (if type = some .unknown then .unknown else .array)

def checkExprs : List Expr → Checker (List ValueType)
  | [] => pure []
  | e :: rest => do
    let type ← checkExpr e
    let types ← checkExprs rest
    pure (type :: types)

end

def checkInit (location : Location) : ArrayInit → Checker (Option ValueType)
  | .sized type _ => pure (some (.ofTypeName type))
  | .values (.array elements place) => do
    let types ← checkExprs elements
    let type ← elementType place types
    pure (some (type.getD .array))
  | .values other => do
    let type ← checkExpr other
    if type = .unknown then pure none
    else
      complain .initializerNotArray location
      pure none

def checkStmt : Stmt → Checker Bool
  | .scalar name type value location => do
    let table ← symbols
    if table.contains name then
      complain (.variableRedeclared name) location
      pure false
    else
      let valueType ← checkExpr value
      let declared := ValueType.ofTypeName type
      if valueType ≠ .unknown ∧ valueType ≠ declared then
        complain (.assignmentMismatch valueType declared) location
        pure false
      else declare name (.unread declared false location)
  | .array name init location => do
    let table ← symbols
    if table.contains name then
      complain (.arrayRedeclared name) location
      pure false
    else
      let elementType ← checkInit location init
      match elementType with
      | some type => declare name (.unread type true location)
      | none => pure false
  | .output content _ => do
    let types ← checkExprs content.expressions
    pure (decide (.unknown ∉ types))

def checkStmts : List Stmt → Checker Bool
  | [] => pure true
  | stmt :: rest => do
    let ok ← checkStmt stmt
    let restOk ← checkStmts rest
    pure (ok && restOk)

namespace Checker

/-- The check gives what is checked without a sink at hand, and records its errors. -/
def Follows (checker : Checker α) (check : SymbolTable → Checked α) : Prop :=
  ∀ symbols, Gives (checker symbols) ((check symbols).value, (check symbols).symbols)
    ((check symbols).errors.map SemanticError.diagnostic)

theorem follows_pure (value : α) : Follows (pure value) (Checked.clean value) := fun _ =>
  gives_pure _

theorem Follows.bind {checker : Checker α} {check : SymbolTable → Checked α}
    {next : α → Checker β} {on : α → SymbolTable → Checked β} (h : Follows checker check)
    (h' : ∀ value, Follows (next value) (on value)) :
    Follows (checker >>= next) (fun symbols => (check symbols).andThen on) := by
  intro symbols
  have steps : (checker >>= next) symbols =
      (checker symbols >>= fun step => next step.1 step.2) := rfl
  dsimp only [Checked.andThen]
  rw [steps, List.map_append]
  exact (h symbols).bind (h' (check symbols).value (check symbols).symbols)

theorem Follows.of_eq {checker : Checker α} {check check' : SymbolTable → Checked α}
    (h : Follows checker check) (same : ∀ symbols, check symbols = check' symbols) :
    Follows checker check' :=
  funext same ▸ h

/-- A check that starts with a look at the symbols. -/
theorem follows_read {next : SymbolTable → Checker α} {check : SymbolTable → Checked α}
    (h : ∀ table, Gives (next table table) ((check table).value, (check table).symbols)
      ((check table).errors.map SemanticError.diagnostic)) :
    Follows (symbols >>= next) check :=
  h

/-- An error ends the check. -/
theorem follows_complain (cause : SemanticCause) (location : Location) (value : α) :
    Follows (do complain cause location; pure value)
      (fun symbols => .faulty value symbols cause location) := fun symbols =>
  ((gives_record _).bind_pure fun _ => ((), symbols)).bind_pure fun _ => (value, symbols)

theorem follows_declare (name : String) (symbol : Symbol) :
    Follows (declare name symbol) fun symbols => symbols.enter name symbol := by
  intro symbols
  unfold declare SymbolTable.enter
  dsimp only
  cases symbols.declare? name symbol <;> exact gives_pure _

end Checker

theorem follows_arithmetic (operator : Operator) (left right : ValueType) (location : Location) :
    Follows (arithmetic operator left right location) fun symbols =>
      .ofType symbols location (arithmeticType operator left right) := by
  unfold arithmetic arithmeticType
  split
  · split
    · exact follows_pure _
    · exact follows_complain _ _ _
  split
  · exact follows_pure _
  split
  · exact follows_pure _
  · exact follows_complain _ _ _

theorem follows_comparison (left right : ValueType) (location : Location) :
    Follows (comparison left right location) fun symbols =>
      .ofType symbols location (comparisonType left right) := by
  unfold comparison comparisonType
  split
  · exact follows_pure _
  · exact follows_complain _ _ _

theorem follows_operation (operator : Operator) (left right : ValueType) (location : Location) :
    Follows (operation operator left right location) fun symbols =>
      .ofType symbols location (operationType operator left right) := by
  unfold operation operationType
  split
  · exact follows_pure _
  split
  · exact follows_arithmetic _ _ _ _
  · exact follows_comparison _ _ _

/-- What is made of the type of an array's elements. -/
theorem follows_elementType (location : Location) (types : List ValueType)
    (make : Option ValueType → α) :
    Follows (do let type ← elementType location types; pure (make type)) fun symbols =>
      match elementType? types with
      | none => .clean (make none) symbols
      | some type =>
        (Checked.ofType symbols location type).andThen fun type symbols =>
          .clean (make (some type)) symbols := by
  cases types with
  | nil => exact fun symbols => gives_pure _
  | cons first rest =>
    by_cases unknown : .unknown ∈ first :: rest
    · simp only [elementType, elementType?, if_pos unknown]
      exact fun symbols => gives_pure _
    by_cases same : ∀ type ∈ rest, type = first
    · simp only [elementType, elementType?, if_neg unknown, if_pos same]
      exact fun symbols => gives_pure _
    · simp only [elementType, elementType?, if_neg unknown, if_neg same]
      exact (follows_complain _ _ ValueType.unknown).bind fun type =>
        follows_pure (make (some type))

mutual

theorem follows_checkExpr : ∀ e : Expr, Follows (checkExpr e) (e.check ·)
  | .literal value location => by
    unfold checkExpr Expr.check
    exact follows_pure _
  | .identifier name location => by
    unfold checkExpr Expr.check
    refine follows_read fun table => ?_
    cases table.get? name with
    | some symbol =>
      simp only
      exact gives_pure _
    | none =>
      simp only
      exact follows_complain _ _ _ table
  | .binary left operator right location => by
    unfold checkExpr Expr.check
    exact (follows_checkExpr left).bind fun leftType =>
      (follows_checkExpr right).bind fun rightType => follows_operation _ _ _ _
  | .array elements location => by
    unfold checkExpr Expr.check
    refine (follows_checkExprs elements).bind fun types => ?_
    refine (follows_elementType location types _).of_eq fun symbols => ?_
    cases elementType? types with
    | none => rfl
    | some type => simp only [Option.some.injEq]

theorem follows_checkExprs : ∀ elements : List Expr,
    Follows (checkExprs elements) (Expr.checkAll · elements)
  | [] => by
    unfold checkExprs Expr.checkAll
    exact follows_pure _
  | e :: rest => by
    unfold checkExprs Expr.checkAll
    exact (follows_checkExpr e).bind fun type =>
      (follows_checkExprs rest).bind fun types => follows_pure _

end

theorem follows_checkInit (location : Location) (init : ArrayInit) :
    Follows (checkInit location init) (init.check · location) := by
  fun_cases checkInit location init with
  | case1 type size =>
    unfold ArrayInit.check
    exact follows_pure _
  | case2 elements place =>
    unfold ArrayInit.check
    exact (follows_checkExprs elements).bind fun types => follows_elementType place types _
  | case3 other notArray =>
    simp only [ArrayInit.check]
    refine (follows_checkExpr other).bind fun type => ?_
    by_cases unknown : type = .unknown
    · simp only [if_pos unknown]
      exact follows_pure _
    · simp only [if_neg unknown]
      exact follows_complain _ _ _

theorem follows_checkStmt : ∀ stmt : Stmt, Follows (checkStmt stmt) (stmt.check ·)
  | .scalar name type value location => by
    unfold checkStmt Stmt.check
    refine follows_read fun table => ?_
    by_cases taken : table.contains name
    · simp only [if_pos taken]
      exact follows_complain _ _ _ table
    · simp only [if_neg taken]
      refine Follows.bind (follows_checkExpr value) (fun valueType => ?_) table
      by_cases wrong : valueType ≠ .unknown ∧ valueType ≠ .ofTypeName type
      · simp only [if_pos wrong]
        exact follows_complain _ _ _
      · simp only [if_neg wrong]
        exact follows_declare _ _
  | .array name init location => by
    unfold checkStmt Stmt.check
    refine follows_read fun table => ?_
    by_cases taken : table.contains name
    · simp only [if_pos taken]
      exact follows_complain _ _ _ table
    · simp only [if_neg taken]
      refine Follows.bind (follows_checkInit location init) (fun elementType => ?_) table
      cases elementType with
      | some type => exact follows_declare _ _
      | none => exact follows_pure _
  | .output content location => by
    unfold checkStmt Stmt.check
    exact (follows_checkExprs _).bind fun types => follows_pure _

theorem follows_checkStmts : ∀ stmts : List Stmt,
    Follows (checkStmts stmts) (Stmt.checkAll · stmts)
  | [] => by
    unfold checkStmts Stmt.checkAll
    exact follows_pure _
  | stmt :: rest => by
    unfold checkStmts Stmt.checkAll
    exact (follows_checkStmt stmt).bind fun ok =>
      (follows_checkStmts rest).bind fun restOk => follows_pure _

def warn (symbols : SymbolTable) : Recording Unit :=
  symbols.unused.forM fun entry => record (unusedWarning entry)

theorem gives_forM (make : β → Diagnostic) : ∀ entries : List β,
    Gives (entries.forM fun entry => record (make entry)) () (entries.map make)
  | [] => gives_pure _
  | entry :: rest => (gives_record (make entry)).bind (gives_forM make rest)

/-- The number of errors that the sink holds, earlier ones included. -/
def errorCount : Recording Nat := fun sink => (sink.errorCount, sink)

/-- Analyses a program, warns of what is unread and compares the numbers of errors. -/
def analyse (program : Program) (symbols : SymbolTable) : Recording (Bool × SymbolTable) := do
  let before ← errorCount
  let step ← checkStmts program.statements symbols
  warn step.2
  let after ← errorCount
  pure (step.1 && after - before == 0, step.2)

/-- An analysis finds its own errors, whatever errors the sink held before. -/
theorem errorCount_sub (sink : Sink) (symbols : SymbolTable) (program : Program) :
    (sink.analyse symbols program).2.errorCount - sink.errorCount =
      (Analysis.ofProgram symbols program).errors.length := by
  have errors : ((Analysis.ofProgram symbols program).errors.map
      SemanticError.diagnostic).countP Diagnostic.isError =
      (Analysis.ofProgram symbols program).errors.length := by
    rw [List.countP_eq_length.mpr (Sink.isError_of_mem_errors _), List.length_map]
  have warnings : ((Analysis.ofProgram symbols program).unused.map unusedWarning).countP
      Diagnostic.isError = 0 :=
    List.countP_eq_zero.mpr fun d member => by simp [Sink.isError_of_mem_warnings _ d member]
  rw [Sink.analyse, Sink.errorCount_pushAll, Sink.errorCount_pushAll, errors, warnings]
  omega

/-- That is the analysis of a program. -/
theorem analyse_eq (program : Program) (symbols : SymbolTable) (sink : Sink) :
    analyse program symbols sink =
      (((sink.analyse symbols program).1.ok, (sink.analyse symbols program).1.symbols),
        (sink.analyse symbols program).2) := by
  have steps : analyse program symbols sink =
      (let step := checkStmts program.statements symbols sink
       let warned := (warn step.1.2 step.2).2
       ((step.1.1 && warned.errorCount - sink.errorCount == 0, step.1.2), warned)) := rfl
  have warned : (warn (Stmt.checkAll symbols program.statements).symbols
      (sink.pushAll ((Stmt.checkAll symbols program.statements).errors.map
        SemanticError.diagnostic))).2 = (sink.analyse symbols program).2 :=
    congrArg Prod.snd (gives_forM unusedWarning _ _)
  rw [steps, follows_checkStmts program.statements symbols sink]
  dsimp only
  rw [warned, errorCount_sub]
  -- The errors of earlier phases are in both counts, so the difference is zero for a good program.
  have verdict : (sink.analyse symbols program).1.ok =
      ((Stmt.checkAll symbols program.statements).value &&
        (Analysis.ofProgram symbols program).errors.length == 0) := by
    rw [Sink.analyse, Analysis.ofProgram]
    cases (Stmt.checkAll symbols program.statements).errors <;> rfl
  rw [verdict]
  rfl

/-- An analysis does the same to every sink, although it counts what the sink holds. -/
theorem gives_analyse (program : Program) (symbols : SymbolTable) :
    Gives (analyse program symbols)
      ((Analysis.ofProgram symbols program).ok, (Analysis.ofProgram symbols program).symbols)
      ((Analysis.ofProgram symbols program).errors.map SemanticError.diagnostic ++
        (Analysis.ofProgram symbols program).unused.map unusedWarning) := by
  intro sink
  rw [analyse_eq, Sink.pushAll_append]
  rfl

end Quill.Recording
