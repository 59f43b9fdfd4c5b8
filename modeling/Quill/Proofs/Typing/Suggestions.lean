import Quill.Proofs.Text.EditDistance
import Quill.Proofs.Text.Similar
import Quill.Proofs.Typing.Agreement

/-!
What is suggested for an undefined name: the nearest of the names that are declared where the name
is read, or to declare it (`suggestions_are_nearest`). The table at that place holds the names from
before the program and those that the statements in front of it have entered
(`Stmt.names_of_arrivals`).
-/
namespace Quill

namespace Text

theorem length_bytes (text : String) : (bytes text).length = text.utf8ByteSize := rfl

/-- Which candidates may be offered: other names, not too many edits away. -/
theorem isNear_iff {name candidate : String} :
    isNear name candidate = true ↔ candidate ≠ "" ∧ candidate ≠ name ∧
      ∃ n, Edits n name.toList candidate.toList ∧
        (n ≤ 1 ∨ n ≤ 2 ∧ 4 ≤ (bytes name).length ∨ n ≤ 3 ∧ 7 ≤ (bytes name).length) := by
  have least := editDistance_isLeast name.toList candidate.toList
  have reach : ∀ n, n ≤ slips name ↔
      (n ≤ 1 ∨ n ≤ 2 ∧ 4 ≤ (bytes name).length ∨ n ≤ 3 ∧ 7 ≤ (bytes name).length) := by
    intro n
    rw [slips, length_bytes]
    split <;> [skip; split] <;> omega
  rw [isNear, decide_eq_true_iff]
  refine and_congr_right fun _ => and_congr_right fun _ => ?_
  constructor
  · intro near
    exact ⟨_, least.1, (reach _).mp near⟩
  · rintro ⟨n, edits, near⟩
    exact Nat.le_trans (least.2 edits) ((reach n).mpr near)

/-- Several names are offered in one row, each in quotes. -/
theorem intercalate_quoted (names : List String) (nonempty : names ≠ []) :
    ", ".intercalate (names.map fun name => "`" ++ name ++ "`") =
      "`" ++ "`, `".intercalate names ++ "`" := by
  induction names with
  | nil => exact absurd rfl nonempty
  | cons name rest ih =>
    cases rest with
    | nil => simp
    | cons next rest =>
      have others := ih (List.cons_ne_nil next rest)
      rw [List.map_cons] at others ⊢
      rw [List.map_cons, String.intercalate_cons_cons, others, String.intercalate_cons_cons]
      apply String.toList_injective
      simp

end Text

namespace SemanticError

/-- What an error about an undefined name says when some names are offered for it. -/
structure Suggests (error : SemanticError) (name : String) (offered : List String) : Prop where
  message : error.diagnostic.message = "Undefined variable '" ++ name ++ "'"
  unoffered : offered = [] → error.diagnostic.suggestion = "Declare the variable before using it"
  one : ∀ only, offered = [only] → error.diagnostic.suggestion = "did you mean `" ++ only ++ "`?"
  several : 2 ≤ offered.length → error.diagnostic.suggestion =
    "did you mean one of: `" ++ "`, `".intercalate offered ++ "`?"

theorem suggests {error : SemanticError} {name : String} {offered : List String}
    (undefined : error.cause = .undefined name offered) : error.Suggests name offered := by
  obtain ⟨_, location⟩ := error
  cases undefined
  refine ⟨rfl, ?_, ?_, ?_⟩
  · rintro rfl
    rfl
  · rintro only rfl
    rfl
  · intro several
    match offered, several with
    | first :: next :: rest, _ =>
      have quoted := Text.intercalate_quoted (first :: next :: rest) (List.cons_ne_nil _ _)
      show "did you mean one of: " ++ _ ++ "?" = _
      rw [quoted]
      apply String.toList_injective
      simp

end SemanticError

namespace Stmt

theorem names_check (symbols : SymbolTable) (stmt : Stmt) :
    (stmt.check symbols).symbols.names =
      symbols.names ++ (Arrival.entered? ⟨symbols, stmt⟩).toList.map (·.1) := by
  obtain ⟨new, entries, sites⟩ := Arrival.grows ⟨symbols, stmt⟩
  have after : (stmt.check symbols).symbols.entries = _ := entries
  rw [← sites, SymbolTable.names, after, List.map_append, List.map_map, List.map_map]
  rfl

/-- The names declared where a statement is reached. -/
theorem names_of_arrivals {symbols : SymbolTable} {stmts : List Stmt} {earlier later : List Arrival}
    {arrival : Arrival} (split : arrivals symbols stmts = earlier ++ arrival :: later) :
    arrival.symbols.names =
      symbols.names ++ (earlier.filterMap Arrival.entered?).map (·.1) := by
  induction earlier generalizing symbols stmts with
  | nil =>
    cases stmts <;> cases split
    exact (List.append_nil _).symm
  | cons first earlier ih =>
    cases stmts with
    | nil => cases split
    | cons stmt rest =>
      obtain ⟨rfl, others⟩ := List.cons.inj split
      rw [ih others, names_check, List.filterMap_cons, List.append_assoc]
      congr 1
      cases Arrival.entered? ⟨symbols, stmt⟩ <;> rfl

theorem errors_checkAll (symbols : SymbolTable) (stmts : List Stmt) :
    (checkAll symbols stmts).errors =
      (arrivals symbols stmts).flatMap fun arrival => arrival.checked.errors := by
  induction stmts generalizing symbols with
  | nil => rfl
  | cons stmt rest ih =>
    rw [errors_checkAll_cons, arrivals, List.flatMap_cons, ← ih]
    rfl

end Stmt

/-- The nearest names are suggested, for every name and all candidates, and in every analysis. The
edit distance is the least number of edits; the candidates that are near enough are ranked by it and
by their bytes, and the first three are offered, in whichever order the candidates are given. An
error about an undefined name offers those among the names that are declared where the statement is
reached. -/
theorem suggestions_are_nearest :
    (∀ text target : List Char,
      IsLeast {n | Text.Edits n text target} (Text.editDistance text target)) ∧
    (∀ name candidate : String, Text.isNear name candidate = true ↔
      candidate ≠ "" ∧ candidate ≠ name ∧
        ∃ n, Text.Edits n name.toList candidate.toList ∧
          (n ≤ 1 ∨ n ≤ 2 ∧ 4 ≤ (Text.bytes name).length ∨
            n ≤ 3 ∧ 7 ≤ (Text.bytes name).length)) ∧
    (∀ (name : String) (candidates : List String),
      ∃ ranked, Text.Ranked name candidates ranked ∧
        Text.similarNames name candidates = ranked.take 3) ∧
    (∀ (name : String) (candidates others : List String), candidates.Perm others →
      Text.similarNames name candidates = Text.similarNames name others) ∧
    ∀ (sink : Sink) (symbols : SymbolTable) (program : Program),
      let arrivals := Stmt.arrivals symbols program.statements
      arrivals.map Arrival.stmt = program.statements ∧
      (sink.analyse symbols program).2.records = sink.records ++
        (((arrivals.flatMap fun arrival => arrival.checked.errors).map SemanticError.diagnostic ++
          (sink.analyse symbols program).1.unused.map unusedWarning).map sink.stamp) ∧
      ∀ earlier arrival later, arrivals = earlier ++ arrival :: later →
        arrival.symbols.names =
          symbols.names ++ (earlier.filterMap Arrival.entered?).map (·.1) ∧
        ∀ error ∈ arrival.checked.errors, ∀ name offered, error.cause = .undefined name offered →
          offered = Text.similarNames name arrival.symbols.names ∧ error.Suggests name offered := by
  refine ⟨Text.editDistance_isLeast, fun _ _ => Text.isNear_iff, Text.exists_ranked,
    fun name _ _ => Text.similarNames_perm name, fun sink symbols program => ?_⟩
  refine ⟨Stmt.map_stmt_arrivals .., ?_, fun earlier arrival later split =>
    ⟨Stmt.names_of_arrivals split, fun error member name offered undefined => ?_⟩⟩
  · rw [sink.records_analyse, List.map_append, ← Stmt.errors_checkAll]
    rfl
  · refine ⟨?_, SemanticError.suggests undefined⟩
    have same := congrArg SemanticError.cause (Stmt.offering_of_mem_errors member)
    rw [SemanticError.offering, undefined] at same
    exact (SemanticCause.undefined.inj same).2.symm

end Quill
