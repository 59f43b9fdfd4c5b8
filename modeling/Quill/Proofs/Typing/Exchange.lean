import Mathlib.Data.List.Perm.Basic
import Quill.Proofs.Text.Similar
import Quill.Proofs.Typing.Agreement
import Quill.Proofs.Typing.Unread

/-!
The order of statements. Two neighbours of which neither speaks of the name that the other one
declares can change places: the analysis finds the same and ends with the same entries, if perhaps
in another order (`Sink.analyse_exchanged`). What follows them does not see that order: types are
looked up by name, and the names that are offered do not depend on it.
-/
namespace Quill

namespace SymbolTable

variable {table other : SymbolTable}

/-- What is looked up does not depend on the order of the entries. -/
theorem agrees_perm (same : other.entries.Perm table.entries) (names : List String) :
    table.Agrees id other names := by
  intro name _
  have found : other.get? name = table.get? name := by
    ext symbol
    rw [get?_eq_some_iff, get?_eq_some_iff, same.mem_iff]
  rw [type?, id, found, type?]

end SymbolTable

theorem SemanticError.offering_perm {names others : List String} (same : names.Perm others)
    (error : SemanticError) : error.offering names = error.offering others := by
  obtain ⟨cause, location⟩ := error
  cases cause with
  | undefined name =>
    rw [offering, SemanticCause.offering, Text.similarNames_perm name same]
    rfl
  | _ => rfl

/-- A statement leaves the types of all names but its own. -/
theorem Stmt.agrees_check (table : SymbolTable) {stmt : Stmt} {names : List String}
    (apart : ∀ name ∈ stmt.declared?, name ∉ names) :
    table.Agrees id (stmt.check table).symbols names := by
  intro name member
  have missing : (Arrival.added? ⟨table, stmt⟩).toList.lookup name = none := by
    refine List.lookup_eq_none_iff.mpr fun entry entered => bne_iff_ne.mpr ?_
    rintro rfl
    have declared := Arrival.declared?_of_mem_added? (Option.mem_toList.mp entered)
    exact apart _ declared member
  have entries := entries_check table stmt
  rw [← SymbolTable.entries_markAll] at entries
  rw [id, SymbolTable.type?, SymbolTable.get?, entries, List.lookup_append, missing, Option.or_none]
  exact table.type?_markAll _ name

namespace Stmt

/-- Neither statement speaks of the name that the other one declares. -/
structure Independent (first second : Stmt) : Prop where
  left : ∀ name ∈ first.declared?, name ∉ second.consulted
  right : ∀ name ∈ second.declared?, name ∉ first.consulted

section Perm

variable {table other : SymbolTable} (same : other.entries.Perm table.entries)
include same

/-- One statement, with the same entries in another order. -/
theorem check_perm (stmt : Stmt) :
    (stmt.check other).value = (stmt.check table).value ∧
    (stmt.check other).errors = (stmt.check table).errors ∧
    (stmt.check other).symbols.entries.Perm (stmt.check table).symbols.entries := by
  have agrees := SymbolTable.agrees_perm same stmt.consulted
  obtain ⟨value, errors⟩ := check_agreeing agrees
  have names : other.names.Perm table.names := same.map _
  refine ⟨value, ?_, ?_⟩
  · rw [errors]
    refine (List.map_congr_left fun error member => ?_).trans (List.map_id _)
    rw [error.offering_perm names, offering_of_mem_errors member, id]
  · rw [entries_check, entries_check, Arrival.evaluated_agreeing agrees,
      Arrival.added?_agreeing agrees]
    exact (same.map _).append_right _

/-- A run, by induction over its statements. -/
theorem checkAll_perm (stmts : List Stmt) :
    (checkAll other stmts).value = (checkAll table stmts).value ∧
    (checkAll other stmts).errors = (checkAll table stmts).errors ∧
    (checkAll other stmts).symbols.entries.Perm (checkAll table stmts).symbols.entries := by
  induction stmts generalizing table other with
  | nil => exact ⟨rfl, rfl, same⟩
  | cons stmt rest ih =>
    obtain ⟨value, errors, entries⟩ := check_perm same stmt
    obtain ⟨restValue, restErrors, restEntries⟩ := ih entries
    refine ⟨?_, ?_, restEntries⟩
    · show (_ && _) = (_ && _)
      rw [value, restValue]
    · rw [errors_checkAll_cons, errors_checkAll_cons, errors, restErrors]

end Perm

section Exchange

variable {first second : Stmt} (independent : first.Independent second) (table : SymbolTable)
include independent

theorem Independent.symm : second.Independent first := ⟨independent.right, independent.left⟩

/-- The first statement's entry is not read by the second one. -/
theorem Independent.readAmong_added? :
    (Arrival.added? ⟨table, first⟩).toList.map
        (SymbolTable.readAmong (Arrival.evaluated ⟨table, second⟩)) =
      (Arrival.added? ⟨table, first⟩).toList := by
  refine (List.map_congr_left fun entry entered => ?_).trans (List.map_id _)
  have declared := Arrival.declared?_of_mem_added? (Option.mem_toList.mp entered)
  have unread : entry.1 ∉ Arrival.evaluated ⟨table, second⟩ := by
    have apart := independent.left entry.1 declared
    unfold Arrival.evaluated
    split
    · exact List.not_mem_nil
    · exact fun mentioned => apart (List.mem_append_right _ mentioned)
  simp [SymbolTable.readAmong, unread]

/-- The entries after both statements: those before them, then the one of the first statement, then
that of the second one. -/
theorem Independent.entries_behind :
    (second.check (first.check table).symbols).symbols.entries =
      table.entries.map (SymbolTable.readAmong
        (Arrival.evaluated ⟨table, first⟩ ++ Arrival.evaluated ⟨table, second⟩)) ++
      ((Arrival.added? ⟨table, first⟩).toList ++ (Arrival.added? ⟨table, second⟩).toList) := by
  have agrees := agrees_check table independent.left
  rw [entries_check, Arrival.evaluated_agreeing agrees, Arrival.added?_agreeing agrees,
    entries_check, List.map_append, independent.readAmong_added?, List.map_map,
    SymbolTable.readAmong_append, List.append_assoc]

/-- The two orders leave the same entries. -/
theorem Independent.entries_perm :
    (first.check (second.check table).symbols).symbols.entries.Perm
      (second.check (first.check table).symbols).symbols.entries := by
  rw [independent.entries_behind, independent.symm.entries_behind]
  have read : SymbolTable.readAmong
        (Arrival.evaluated ⟨table, second⟩ ++ Arrival.evaluated ⟨table, first⟩) =
      SymbolTable.readAmong
        (Arrival.evaluated ⟨table, first⟩ ++ Arrival.evaluated ⟨table, second⟩) := by
    funext entry
    simp only [SymbolTable.readAmong, List.mem_append, or_comm]
  rw [read]
  exact List.perm_append_comm.append_left _

end Exchange

/-- The errors of a statement behind others. -/
def findingsBehind (stmts : List Stmt) (stmt : Stmt) : List Finding :=
  (stmt.check (tableAfter stmts)).errors.map .error

/-- A run through two statements, behind some and in front of others. -/
theorem errors_checkAll_pair (before after : List Stmt) (first second : Stmt) :
    (checkAll .empty (before ++ first :: second :: after)).errors.map .error =
      (checkAll .empty before).errors.map .error ++ (first.findingsBehind before ++
        (second.findingsBehind (before ++ [first]) ++ (checkAll
          (second.check (first.check (tableAfter before)).symbols).symbols after).errors.map
            .error)) := by
  have behind : tableAfter (before ++ [first]) = (first.check (tableAfter before)).symbols :=
    symbols_checkAll_concat .empty before first
  rw [findingsBehind, findingsBehind, behind, ← List.map_append, ← List.map_append,
    ← List.map_append, checkAll_append, ← errors_checkAll_cons, ← errors_checkAll_cons]
  exact congrArg _ (congrArg _ (List.append_nil _))

theorem symbols_checkAll_pair (before after : List Stmt) (first second : Stmt) :
    (checkAll .empty (before ++ first :: second :: after)).symbols =
      (checkAll (second.check (first.check (tableAfter before)).symbols).symbols
        after).symbols := by
  rw [checkAll_append]
  rfl

/-- A statement finds the same in front of another one and behind it, but for what is offered. -/
theorem Independent.renames_behind {first second : Stmt} (independent : first.Independent second)
    (before : List Stmt) :
    List.Forall₂ (Finding.Renames id) (first.findingsBehind before)
        (first.findingsBehind (before ++ [second])) ∧
      List.Forall₂ (Finding.Renames id) (second.findingsBehind (before ++ [first]))
        (second.findingsBehind before) := by
  have behindFirst : tableAfter (before ++ [first]) = (first.check (tableAfter before)).symbols :=
    symbols_checkAll_concat .empty before first
  have behindSecond : tableAfter (before ++ [second]) =
      (second.check (tableAfter before)).symbols := symbols_checkAll_concat .empty before second
  unfold findingsBehind
  rw [behindFirst, behindSecond]
  exact ⟨renames_agreeing (agrees_check _ independent.right),
    renames_agreeing (agrees_check _ independent.left).symm⟩

end Stmt

open Stmt (checkAll tableAfter findingsBehind)

/-- Two runs in which two independent neighbours have changed places. -/
theorem Analysis.ofProgram_exchanged (before after : List Stmt) {first second : Stmt}
    (independent : first.Independent second) :
    let one := ofProgram .empty (.ofStatements (before ++ first :: second :: after))
    let other := ofProgram .empty (.ofStatements (before ++ second :: first :: after))
    other.ok = one.ok ∧
    other.symbols.entries.Perm one.symbols.entries ∧
    ∃ shared : List Finding,
      one.findings.Perm (shared ++
        (first.findingsBehind before ++ second.findingsBehind (before ++ [first]))) ∧
      other.findings.Perm (shared ++
        (first.findingsBehind (before ++ [second]) ++ second.findingsBehind before)) := by
  have rest := Stmt.checkAll_perm (independent.entries_perm (tableAfter before)) after
  obtain ⟨-, errors, entries⟩ := rest
  rw [← Stmt.symbols_checkAll_pair, ← Stmt.symbols_checkAll_pair] at entries
  have oneErrors := Stmt.errors_checkAll_pair before after first second
  have otherErrors := Stmt.errors_checkAll_pair before after second first
  rw [errors] at otherErrors
  intro one other
  have unread : other.unused.Perm one.unused := entries.filter _
  have findings : one.findings = _ ++ one.unused.map .unread := congrArg (· ++ _) oneErrors
  have otherFindings : other.findings = _ ++ other.unused.map .unread :=
    congrArg (· ++ _) otherErrors
  refine ⟨?_, entries, (checkAll .empty before).errors.map .error ++
    ((checkAll (second.check (first.check (tableAfter before)).symbols).symbols after).errors.map
      .error ++ one.unused.map .unread), ?_, ?_⟩
  · obtain ⟨hfirst, hsecond⟩ := independent.renames_behind before
    have oneLength := congrArg List.length oneErrors
    have otherLength := congrArg List.length otherErrors
    rw [List.length_map] at oneLength otherLength
    simp only [List.length_append, hfirst.length_eq, hsecond.length_eq] at oneLength otherLength
    have sameLength : other.errors.length = one.errors.length := by
      refine otherLength.trans (Eq.trans ?_ oneLength.symm)
      omega
    rw [Bool.eq_iff_iff, (ofProgram_follows _).1, (ofProgram_follows _).1,
      ← List.length_eq_zero_iff, ← List.length_eq_zero_iff, sameLength]
  · rw [findings, List.perm_iff_count]
    intro finding
    simp only [List.count_append]
    omega
  · rw [otherFindings, List.perm_iff_count]
    intro finding
    have sameCount := (unread.map Finding.unread).count_eq finding
    simp only [List.count_append, sameCount]
    omega

/-- Two independent neighbours change places in a program that is analysed on its own, for any sink:
the same verdict, the same entries, if in another order, and the same diagnostics but for the names
that are offered in errors of the two statements. -/
theorem Sink.analyse_exchanged (sink : Sink) (before after : List Stmt) {first second : Stmt}
    (independent : first.Independent second) :
    let one := sink.analyse .empty (.ofStatements (before ++ first :: second :: after))
    let other := sink.analyse .empty (.ofStatements (before ++ second :: first :: after))
    let inFirst := first.findingsBehind before
    let inSecond := second.findingsBehind (before ++ [first])
    let otherFirst := first.findingsBehind (before ++ [second])
    let otherSecond := second.findingsBehind before
    other.1.ok = one.1.ok ∧
    other.1.symbols.entries.Perm one.1.symbols.entries ∧
    ∃ shared : List Finding,
      one.2.records.Perm (sink.records ++
        ((shared ++ (inFirst ++ inSecond)).map Finding.diagnostic).map sink.stamp) ∧
      other.2.records.Perm (sink.records ++
        ((shared ++ (otherFirst ++ otherSecond)).map Finding.diagnostic).map sink.stamp) ∧
      List.Forall₂ (Finding.Renames id) inFirst otherFirst ∧
      List.Forall₂ (Finding.Renames id) inSecond otherSecond := by
  obtain ⟨ok, entries, shared, findings, otherFindings⟩ :=
    Analysis.ofProgram_exchanged before after independent
  obtain ⟨hfirst, hsecond⟩ := independent.renames_behind before
  refine ⟨ok, entries, shared, ?_, ?_, hfirst, hsecond⟩
  · rw [records_analyse_findings]
    exact ((findings.map _).map _).append_left _
  · rw [records_analyse_findings]
    exact ((otherFindings.map _).map _).append_left _

/-- Two declarations in front of an output that reads one of them. -/
theorem Sink.analyse_exchanged_declarations :
    let first := Stmt.scalar "count" .int (.literal (.integer 1) ⟨1, 17⟩) ⟨1, 1⟩
    let second := Stmt.scalar "name" .string (.literal (.string "q") ⟨2, 19⟩) ⟨2, 1⟩
    let last := Stmt.output ⟨[], [.identifier "count" ⟨3, 9⟩], ⟨3, 7⟩⟩ ⟨3, 1⟩
    let one := (Sink.empty none).analyse .empty (.ofStatements [first, second, last])
    let other := (Sink.empty none).analyse .empty (.ofStatements [second, first, last])
    first.Independent second ∧ other.1.ok = one.1.ok ∧
      other.1.symbols.entries.Perm one.1.symbols.entries ∧
      one.1.symbols.entries =
        [("count", ⟨.int, false, ⟨1, 1⟩, true⟩), ("name", ⟨.string, false, ⟨2, 1⟩, false⟩)] := by
  intro first second last one other
  have independent : first.Independent second := ⟨by decide, by decide⟩
  obtain ⟨ok, entries, -⟩ := analyse_exchanged (.empty none) [] [last] independent
  exact ⟨independent, ok, entries, by decide⟩

end Quill
