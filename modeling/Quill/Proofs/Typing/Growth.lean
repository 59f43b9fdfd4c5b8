import Mathlib.Data.List.Nodup
import Quill.Proofs.Typing.Findings
import Quill.Proofs.Typing.Pieces

/-!
What an analysis does to the symbols that it starts with. Each statement is looked at together with
the symbols that it is reached with (`Stmt.arrivals`): these decide whether it is put aside, which
names it reads and whether it enters its own. The entries before a statement stay in front of those
after it (`SymbolTable.Grows`), and so do the entries before a run.
-/
namespace Quill

instance Stmt.decidableRedeclares (stmt : Stmt) (symbols : SymbolTable) :
    Decidable (stmt.Redeclares symbols) :=
  inferInstanceAs (Decidable (∃ name ∈ stmt.declared?, name ∈ symbols.names))

def SemanticCause.isRedeclared : SemanticCause → Bool
  | variableRedeclared _ | arrayRedeclared _ => true
  | _ => false

/-- A statement, and the symbols that it is reached with. -/
structure Arrival where
  symbols : SymbolTable
  stmt : Stmt
  deriving Repr

namespace Arrival

def checked (arrival : Arrival) : Checked Bool := arrival.stmt.check arrival.symbols

abbrev Redeclares (arrival : Arrival) : Prop := arrival.stmt.Redeclares arrival.symbols

/-- The names of the identifiers that are evaluated: none in a redeclaration, else all. -/
def evaluated (arrival : Arrival) : List String :=
  if arrival.Redeclares then [] else arrival.stmt.mentioned

/-- The name that the statement enters, and where it does so. -/
def entered? (arrival : Arrival) : Option (String × Location) :=
  if arrival.Redeclares ∨ arrival.stmt.fails arrival.symbols = true then none
  else arrival.stmt.declared?.map fun name => (name, arrival.stmt.place)

def rejection? (arrival : Arrival) : Option SemanticError :=
  if arrival.Redeclares then arrival.stmt.rejection? else none

end Arrival

/-- The statements of a run, each with the symbols that the ones before it leave. -/
def Stmt.arrivals (symbols : SymbolTable) : List Stmt → List Arrival
  | [] => []
  | stmt :: rest => ⟨symbols, stmt⟩ :: arrivals (stmt.check symbols).symbols rest

namespace SymbolTable

/-- An entry stays: only its flag may change, and only from unread to read. -/
structure Keeps (old entry : String × Symbol) : Prop where
  name : entry.1 = old.1
  type : entry.2.type = old.2.type
  isArray : entry.2.isArray = old.2.isArray
  location : entry.2.location = old.2.location
  used : old.2.used = true → entry.2.used = true

theorem keeps_readAmong (names : List String) (entry : String × Symbol) :
    Keeps entry (readAmong names entry) :=
  ⟨rfl, rfl, rfl, rfl, fun used => by simp [readAmong, used]⟩

theorem readAmong_append (names more : List String) :
    readAmong (names ++ more) = readAmong more ∘ readAmong names := by
  funext entry
  by_cases first : entry.1 ∈ names <;> by_cases second : entry.1 ∈ more <;>
    simp [readAmong, first, second]

/-- The name has an entry that has been read. -/
def Reads (table : SymbolTable) (name : String) : Prop :=
  ∃ symbol, (name, symbol) ∈ table.entries ∧ symbol.used = true

/-- Entries after some names have been read and others have been entered, each at a place. -/
def Grows (entries : List (String × Symbol)) (read : List String)
    (sites : List (String × Location)) (after : List (String × Symbol)) : Prop :=
  ∃ new, after = entries.map (readAmong read) ++ new ∧
    new.map (fun entry => (entry.1, entry.2.location)) = sites

namespace Grows

variable {entries mid after : List (String × Symbol)} {read more : List String}
  {sites later : List (String × Location)}

theorem refl (entries : List (String × Symbol)) : Grows entries [] [] entries :=
  ⟨[], by rw [readAmong_nil, List.map_id, List.append_nil], rfl⟩

theorem trans (h : Grows entries read sites mid) (hmore : Grows mid more later after) :
    Grows entries (read ++ more) (sites ++ later) after := by
  obtain ⟨new, rfl, rfl⟩ := h
  obtain ⟨newer, rfl, rfl⟩ := hmore
  refine ⟨new.map (readAmong more) ++ newer, ?_, ?_⟩
  · rw [List.map_append, List.map_map, List.append_assoc, readAmong_append]
  · rw [List.map_append, List.map_map]
    rfl

end Grows

end SymbolTable

namespace Arrival

open SymbolTable (Grows readAmong)

/-- What one statement does to the entries. -/
theorem exists_new (arrival : Arrival) :
    ∃ new : List (String × Symbol),
      arrival.checked.symbols.entries =
        arrival.symbols.entries.map (readAmong arrival.evaluated) ++ new ∧
      new.map (fun entry => (entry.1, entry.2.location)) = arrival.entered?.toList ∧
      ∀ entry ∈ new, entry.2.used = false := by
  obtain ⟨symbols, stmt⟩ := arrival
  by_cases taken : stmt.Redeclares symbols
  · have evaluated : Arrival.evaluated ⟨symbols, stmt⟩ = [] := if_pos taken
    have entered : Arrival.entered? ⟨symbols, stmt⟩ = none := if_pos (.inl taken)
    refine ⟨[], ?_, ?_, nofun⟩
    · rw [checked, Stmt.symbols_check_of_redeclares taken, evaluated, SymbolTable.readAmong_nil,
        List.map_id, List.append_nil]
    · rw [entered]
      rfl
  have evaluated : Arrival.evaluated ⟨symbols, stmt⟩ = stmt.mentioned := if_neg taken
  rcases Stmt.symbols_check taken with ⟨idle, same⟩ | ⟨name, type, isArray, declared, fits, same⟩
  · have entered : Arrival.entered? ⟨symbols, stmt⟩ = none := by
      rcases idle with anonymous | fails
      · simp [entered?, anonymous]
      · simp [entered?, fails]
    refine ⟨[], ?_, ?_, nofun⟩
    · rw [checked, same, evaluated, List.append_nil]
      exact SymbolTable.entries_markAll symbols stmt.mentioned
    · rw [entered]
      rfl
  · have entered : Arrival.entered? ⟨symbols, stmt⟩ = some (name, stmt.place) := by
      simp [entered?, Redeclares, taken, fits, declared]
    refine ⟨[(name, .unread type isArray stmt.place)], ?_, ?_, ?_⟩
    · rw [checked, same, evaluated, Stmt.entries_enter declared taken,
        SymbolTable.entries_markAll]
    · rw [entered]
      rfl
    · intro entry member
      rw [List.mem_singleton.mp member]
      rfl

theorem grows (arrival : Arrival) :
    Grows arrival.symbols.entries arrival.evaluated arrival.entered?.toList
      arrival.checked.symbols.entries := by
  obtain ⟨new, entries, sites, -⟩ := arrival.exists_new
  exact ⟨new, entries, sites⟩

/-- An entry is read after a statement if it was before, or if the statement evaluates its name. -/
theorem reads_checked (arrival : Arrival) (name : String) :
    arrival.checked.symbols.Reads name ↔
      arrival.symbols.Reads name ∨ name ∈ arrival.symbols.names ∧ name ∈ arrival.evaluated := by
  obtain ⟨new, entries, -, unread⟩ := arrival.exists_new
  rw [SymbolTable.Reads, entries]
  constructor
  · rintro ⟨symbol, member, used⟩
    rcases List.mem_append.mp member with old | inNew
    · obtain ⟨⟨_, stored⟩, among, same⟩ := List.mem_map.mp old
      cases same
      rcases Bool.or_eq_true_iff.mp used with before | now
      · exact .inl ⟨stored, among, before⟩
      · exact .inr ⟨List.mem_map_of_mem among, of_decide_eq_true now⟩
    · -- Its own name is entered after all others are read.
      exact absurd used (Bool.eq_false_iff.mp (unread _ inNew))
  · rintro (⟨symbol, among, used⟩ | ⟨stored, evaluated⟩)
    · refine ⟨_, List.mem_append_left _ (List.mem_map_of_mem among), ?_⟩
      simp [used]
    · obtain ⟨⟨_, symbol⟩, among, rfl⟩ := List.mem_map.mp stored
      refine ⟨_, List.mem_append_left _ (List.mem_map_of_mem among), ?_⟩
      simp [evaluated]

/-- The statement has the error of a redeclaration exactly if it is one. -/
theorem filter_errors (arrival : Arrival) :
    arrival.checked.errors.filter (·.cause.isRedeclared) = arrival.rejection?.toList := by
  obtain ⟨symbols, stmt⟩ := arrival
  have finds := stmt.check_finds symbols
  rw [checked]
  generalize (stmt.check symbols).errors = errors at finds
  cases finds with
  | @redeclared error taken rejection =>
    have found : Arrival.rejection? ⟨symbols, stmt⟩ = some error := (if_pos taken).trans rejection
    have about : error.cause.isRedeclared = true := by
      obtain ⟨name, same | same⟩ := Stmt.cause_of_rejection? rejection <;> rw [same] <;> rfl
    rw [found]
    exact List.filter_eq_self.mpr fun other member => List.mem_singleton.mp member ▸ about
  | inExpressions free =>
    have notRejected : Arrival.rejection? ⟨symbols, stmt⟩ = none := if_neg free
    obtain ⟨blames, blamed⟩ := (Expr.checkAll_contained symbols stmt.expressions).blamed
    rw [notRejected]
    refine List.filter_eq_nil_iff.mpr fun error member => ?_
    obtain ⟨node, ofNode⟩ := blamed.exists_ofNode error member
    cases ofNode <;> exact Bool.false_ne_true
  | misfit free _ _ _ misfit =>
    have notRejected : Arrival.rejection? ⟨symbols, stmt⟩ = none := if_neg free
    rw [notRejected]
    cases misfit <;> rfl

end Arrival

namespace Stmt

open SymbolTable (Grows)

/-- What a run does to the entries: the steps of its statements, one behind the other. -/
theorem checkAll_grows (symbols : SymbolTable) (stmts : List Stmt) :
    Grows symbols.entries ((arrivals symbols stmts).flatMap Arrival.evaluated)
      ((arrivals symbols stmts).filterMap Arrival.entered?)
      (checkAll symbols stmts).symbols.entries := by
  rw [List.filterMap_eq_flatMap_toList]
  induction stmts generalizing symbols with
  | nil => exact .refl _
  | cons stmt rest ih =>
    have others := ih (stmt.check symbols).symbols
    exact (Arrival.grows ⟨symbols, stmt⟩).trans others

theorem reads_checkAll (symbols : SymbolTable) (stmts : List Stmt) (name : String) :
    (checkAll symbols stmts).symbols.Reads name ↔ symbols.Reads name ∨
      ∃ arrival ∈ arrivals symbols stmts,
        name ∈ arrival.symbols.names ∧ name ∈ arrival.evaluated := by
  induction stmts generalizing symbols with
  | nil => simp [checkAll, arrivals, Checked.clean]
  | cons stmt rest ih =>
    have first := Arrival.reads_checked ⟨symbols, stmt⟩ name
    have others := ih (stmt.check symbols).symbols
    rw [arrivals, List.exists_mem_cons_iff, ← or_assoc, ← first]
    exact others

theorem filter_errors_checkAll (symbols : SymbolTable) (stmts : List Stmt) :
    (checkAll symbols stmts).errors.filter (·.cause.isRedeclared) =
      (arrivals symbols stmts).filterMap Arrival.rejection? := by
  rw [List.filterMap_eq_flatMap_toList]
  induction stmts generalizing symbols with
  | nil => rfl
  | cons stmt rest ih =>
    rw [arrivals, List.flatMap_cons, ← ih, ← Arrival.filter_errors, errors_checkAll_cons,
      List.filter_append]
    rfl

theorem map_stmt_arrivals (symbols : SymbolTable) (stmts : List Stmt) :
    (arrivals symbols stmts).map Arrival.stmt = stmts := by
  induction stmts generalizing symbols with
  | nil => rfl
  | cons stmt rest ih => exact congrArg (stmt :: ·) (ih (stmt.check symbols).symbols)

end Stmt

/-- A table has one symbol for each of its names. -/
theorem SymbolTable.reads_iff {table : SymbolTable} {entry : String × Symbol}
    (member : entry ∈ table.entries) : table.Reads entry.1 ↔ entry.2.used = true := by
  constructor
  · rintro ⟨symbol, among, used⟩
    have same : (entry.1, symbol) = entry := List.inj_on_of_nodup_map table.nodup among member rfl
    rw [← same]
    exact used
  · intro used
    exact ⟨entry.2, member, used⟩

/-- The analysis of a program with any symbols before it. The old entries come first and stay, but
for their flags; behind them come the names that the declarations enter, each if it is new and its
value does not keep it out. A declaration of a name that is taken has its error and does nothing
else. A flag is set exactly if it was set before, or if the name has been evaluated after it was
entered. -/
theorem Sink.analyse_grows (sink : Sink) (symbols : SymbolTable) (program : Program) :
    let arrivals := Stmt.arrivals symbols program.statements
    let analysed := sink.analyse symbols program
    arrivals.map Arrival.stmt = program.statements ∧
    (∃ kept new, analysed.1.symbols.entries = kept ++ new ∧
      List.Forall₂ SymbolTable.Keeps symbols.entries kept ∧
      new.map (fun entry => (entry.1, entry.2.location)) =
        arrivals.filterMap Arrival.entered?) ∧
    (∃ (errors : List SemanticError) (warnings : List Diagnostic),
      analysed.2.records = sink.records ++
        (errors.map SemanticError.diagnostic ++ warnings).map sink.stamp ∧
      (∀ d ∈ warnings, d.isError = false) ∧
      errors.filter (·.cause.isRedeclared) = arrivals.filterMap Arrival.rejection?) ∧
    (∀ arrival ∈ arrivals, arrival.Redeclares → arrival.checked.symbols = arrival.symbols) ∧
    ∀ entry ∈ analysed.1.symbols.entries, entry.2.used = true ↔
      symbols.Reads entry.1 ∨ ∃ arrival ∈ arrivals,
        entry.1 ∈ arrival.symbols.names ∧ entry.1 ∈ arrival.evaluated := by
  refine ⟨Stmt.map_stmt_arrivals symbols _, ?_, ?_, fun arrival _ taken => ?_,
    fun entry member => ?_⟩
  · obtain ⟨new, entries, sites⟩ := Stmt.checkAll_grows symbols program.statements
    refine ⟨_, new, entries, List.forall₂_map_right_iff.mpr (List.forall₂_same.mpr ?_), sites⟩
    exact fun entry _ => SymbolTable.keeps_readAmong _ entry
  · have found := Stmt.filter_errors_checkAll symbols program.statements
    refine ⟨_, (Analysis.ofProgram symbols program).unused.map unusedWarning, ?_,
      isError_of_mem_warnings _, found⟩
    rw [records_analyse, List.map_append]
    rfl
  · exact Stmt.symbols_check_of_redeclares taken
  · rw [← SymbolTable.reads_iff member]
    exact Stmt.reads_checkAll symbols program.statements entry.1

end Quill
