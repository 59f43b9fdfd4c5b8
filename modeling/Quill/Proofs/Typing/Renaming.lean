import Quill.Proofs.Typing.Agreement

/-!
Names are arbitrary. The analysis of a program whose names are all replaced, different ones by
different ones, finds what it finds in the program itself (`Sink.analyse_renamed`). Only the
similar names that are offered for an undefined one depend on how names are spelled.
-/
namespace Quill

section Run

variable {f : String → String} (inj : f.Injective)
include inj

namespace SymbolTable

variable {table other : SymbolTable} (same : other.entries = table.entries.map (renamedEntry f))
include same

theorem get?_renamed (name : String) : other.get? (f name) = table.get? name := by
  rw [get?, get?, same]
  induction table.entries with
  | nil => rfl
  | cons entry rest ih =>
    have equal : (f name == f entry.1) = (name == entry.1) := by
      rw [Bool.eq_iff_iff, beq_iff_eq, beq_iff_eq]
      exact inj.eq_iff
    rw [List.map_cons, List.lookup_cons, List.lookup_cons]
    simp only [renamedEntry, equal, ih]

theorem agrees_renamed (names : List String) : table.Agrees f other names := by
  intro name _
  rw [type?, get?_renamed inj same, type?]

omit same in
theorem readAmong_renamedEntry (names : List String) (entry : String × Symbol) :
    readAmong (names.map f) (renamedEntry f entry) = renamedEntry f (readAmong names entry) := by
  simp only [readAmong, renamedEntry, List.mem_map_of_injective inj]

omit inj in
theorem unused_renamed : other.unused = table.unused.map (renamedEntry f) := by
  rw [unused, same, List.filter_map, unused]
  rfl

end SymbolTable

open SymbolTable (renamedEntry)

namespace Stmt

variable {table other : SymbolTable}

/-- One statement keeps the entries of the two runs the same but for the names. -/
theorem entries_check_renamed (same : other.entries = table.entries.map (renamedEntry f))
    (stmt : Stmt) :
    ((stmt.renamed f).check other).symbols.entries =
      (stmt.check table).symbols.entries.map (renamedEntry f) := by
  have agrees := SymbolTable.agrees_renamed inj same stmt.consulted
  rw [entries_check, entries_check, Arrival.evaluated_renamed agrees,
    Arrival.added?_renamed agrees, same, List.map_append, List.map_map, List.map_map,
    Option.toList_map]
  congr 2
  funext entry
  exact SymbolTable.readAmong_renamedEntry inj _ entry

/-- A run, by induction over its statements. -/
theorem checkAll_renamed (same : other.entries = table.entries.map (renamedEntry f))
    (stmts : List Stmt) :
    (checkAll other (stmts.map (Stmt.renamed f))).value = (checkAll table stmts).value ∧
    (checkAll other (stmts.map (Stmt.renamed f))).symbols.entries =
      (checkAll table stmts).symbols.entries.map (renamedEntry f) ∧
    List.Forall₂ (fun error counterpart => Finding.Renames f (.error error) (.error counterpart))
      (checkAll table stmts).errors (checkAll other (stmts.map (Stmt.renamed f))).errors := by
  induction stmts generalizing table other with
  | nil => exact ⟨rfl, same, .nil⟩
  | cons stmt rest ih =>
    have first := check_mirrors (SymbolTable.agrees_renamed inj same stmt.consulted)
    obtain ⟨value, entries, errors⟩ := ih (entries_check_renamed inj same stmt)
    refine ⟨?_, entries, ?_⟩
    · show (_ && _) = (_ && _)
      rw [first.value, value]
    · rw [List.map_cons, errors_checkAll_cons, errors_checkAll_cons, first.errors]
      refine List.rel_append ?_ errors
      refine List.forall₂_map_right_iff.mpr (List.forall₂_same.mpr fun error _ => ?_)
      exact error.renames_offering other.names

end Stmt

theorem Analysis.ofProgram_renamed (program : Program) :
    let analysis := ofProgram .empty program
    let other := ofProgram .empty (program.renamed f)
    other.ok = analysis.ok ∧
    other.symbols.entries = analysis.symbols.entries.map (renamedEntry f) ∧
    List.Forall₂ (Finding.Renames f) analysis.findings other.findings := by
  obtain ⟨value, entries, errors⟩ :=
    @Stmt.checkAll_renamed f inj .empty .empty rfl program.statements
  refine ⟨?_, entries, List.rel_append ?_ ?_⟩
  · have noise : (Stmt.checkAll .empty (program.statements.map (Stmt.renamed f))).errors.isEmpty =
        (Stmt.checkAll .empty program.statements).errors.isEmpty := by
      rw [Bool.eq_iff_iff, List.isEmpty_iff_length_eq_zero, List.isEmpty_iff_length_eq_zero,
        errors.length_eq]
    exact congrArg₂ (· && ·) value noise
  · exact List.forall₂_map_left_iff.mpr (List.forall₂_map_right_iff.mpr errors)
  · have unread : (ofProgram .empty (program.renamed f)).unused =
        (ofProgram .empty program).unused.map (renamedEntry f) := SymbolTable.unused_renamed entries
    refine List.forall₂_map_left_iff.mpr (List.forall₂_map_right_iff.mpr ?_)
    rw [unread]
    exact List.forall₂_map_right_iff.mpr
      (List.forall₂_same.mpr fun entry _ => SymbolTable.renames_unread f entry)

/-- The analysis of a program on its own, under other names and for any sink: the same verdict, the
same symbols but for the names, and the same findings in the same order. -/
theorem Sink.analyse_renamed (sink : Sink) (program : Program) :
    let analysed := sink.analyse .empty program
    let other := sink.analyse .empty (program.renamed f)
    other.1.ok = analysed.1.ok ∧
    other.1.symbols.entries = analysed.1.symbols.entries.map (renamedEntry f) ∧
    ∃ findings counterparts : List Finding,
      analysed.2.records = sink.records ++ (findings.map Finding.diagnostic).map sink.stamp ∧
      other.2.records = sink.records ++ (counterparts.map Finding.diagnostic).map sink.stamp ∧
      List.Forall₂ (Finding.Renames f) findings counterparts := by
  obtain ⟨ok, entries, findings⟩ := Analysis.ofProgram_renamed inj program
  exact ⟨ok, entries, _, _, sink.records_analyse_findings .empty program,
    sink.records_analyse_findings .empty (program.renamed f), findings⟩

end Run

/-- A sum of which one operand is misspelt. -/
def misspeltSum : Program :=
  .ofStatements
    [.scalar "total" .int (.literal (.integer 1) ⟨1, 1⟩) ⟨1, 1⟩,
      .scalar "sum" .int
        (.binary (.identifier "total" ⟨2, 9⟩) .add (.identifier "totl" ⟨2, 17⟩) ⟨2, 15⟩) ⟨2, 1⟩]

/-- The sum with a letter in front of each of its names. -/
theorem Sink.analyse_renamed_misspeltSum :
    Function.Injective ("x" ++ · : String → String) ∧
    ((Sink.empty none).analyse .empty (misspeltSum.renamed ("x" ++ ·))).1.symbols.entries =
      [("xtotal", ⟨.int, false, ⟨1, 1⟩, true⟩), ("xsum", ⟨.int, false, ⟨2, 1⟩, false⟩)] := by
  have inj : Function.Injective ("x" ++ · : String → String) :=
    fun _ _ same => (String.append_right_inj "x").mp same
  obtain ⟨-, entries, -⟩ := analyse_renamed inj (.empty none) misspeltSum
  refine ⟨inj, entries.trans ?_⟩
  decide

end Quill
