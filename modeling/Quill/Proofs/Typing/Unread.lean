import Mathlib.Data.List.Induction
import Quill.Proofs.Typing.Pieces
import Quill.Proofs.Typing.Usage

/-!
Warnings about names that are not read. A name is due for one if no statement after its declaration
reads it. Each entry of the table is traced to the statement that declared it (`Stmt.Trace`), and
its flag tells whether a later statement reads the name; one statement more keeps this so.
-/
namespace Quill

/-- A declaration in a program: the index of the statement, the name and where the statement
stands. -/
structure Site where
  index : Nat
  name : String
  place : Location
  deriving DecidableEq, Repr

def unreadMessage (name : String) : String := "Unused variable '" ++ name ++ "'"

def Site.warning (site : Site) : Diagnostic :=
  .pointing .warning (unreadMessage site.name) "Remove this variable or use it in your code"
    site.place

/-- An entry of a table, and the index of its declaration. -/
structure Traced where
  index : Nat
  entry : String × Symbol

namespace Traced

def site (traced : Traced) : Site := ⟨traced.index, traced.entry.1, traced.entry.2.location⟩

/-- The entry after some names have been read. -/
def read (names : List String) (traced : Traced) : Traced :=
  ⟨traced.index, SymbolTable.readAmong names traced.entry⟩

@[simp] theorem site_read (names : List String) (traced : Traced) :
    (traced.read names).site = traced.site := rfl

end Traced

namespace Stmt

/-- The symbols that statements leave when nothing has been declared before them. -/
def tableAfter (stmts : List Stmt) : SymbolTable := (checkAll .empty stmts).symbols

/-- The statement at a site declares the name: the name is in the table after it and not before. -/
structure DeclaredAt (stmts : List Stmt) (site : Site) : Prop where
  statement : ∃ stmt, stmts[site.index]? = some stmt ∧ stmt.declared? = some site.name ∧
    stmt.place = site.place
  fresh : site.name ∉ (tableAfter (stmts.take site.index)).names
  entered : site.name ∈ (tableAfter (stmts.take (site.index + 1))).names

/-- A statement behind a site reads the name: the name occurs in it, and the statement does not
redeclare a name. -/
def ReadAfter (stmts : List Stmt) (site : Site) : Prop :=
  ∃ later stmt, site.index < later ∧ stmts[later]? = some stmt ∧ site.name ∈ stmt.mentioned ∧
    ¬stmt.Redeclares (tableAfter (stmts.take later))

variable {stmts : List Stmt} {stmt : Stmt} {site : Site}

theorem symbols_checkAll_concat (symbols : SymbolTable) (stmts : List Stmt) (stmt : Stmt) :
    (checkAll symbols (stmts ++ [stmt])).symbols =
      (stmt.check (checkAll symbols stmts).symbols).symbols := by
  rw [checkAll_append]
  rfl

theorem effect_concat (stmts : List Stmt) (stmt : Stmt) :
    Effect (tableAfter stmts) stmt (tableAfter (stmts ++ [stmt])) := by
  unfold tableAfter
  rw [symbols_checkAll_concat]
  exact check_effect _ stmt

namespace DeclaredAt

theorem index_lt (h : DeclaredAt stmts site) : site.index < stmts.length := by
  obtain ⟨stmt, found, -⟩ := h.statement
  exact (List.getElem?_eq_some_iff.mp found).1

/-- A statement more at the end leaves the declarations as they are. -/
theorem concat (h : DeclaredAt stmts site) (stmt : Stmt) : DeclaredAt (stmts ++ [stmt]) site := by
  have inside := h.index_lt
  obtain ⟨statement, fresh, entered⟩ := h
  refine ⟨?_, ?_, ?_⟩
  · rw [List.getElem?_append_left inside]
    exact statement
  · rw [List.take_append_of_le_length (by omega)]
    exact fresh
  · rw [List.take_append_of_le_length (by omega)]
    exact entered

/-- A name that the last statement enters is declared by it. -/
theorem last {name : String} {symbol : Symbol} {before : SymbolTable}
    (declared : stmt.declared? = some name) (free : ¬stmt.Redeclares (tableAfter stmts))
    (stands : symbol.location = stmt.place)
    (entries : (tableAfter (stmts ++ [stmt])).entries = before.entries ++ [(name, symbol)]) :
    DeclaredAt (stmts ++ [stmt]) ⟨stmts.length, name, symbol.location⟩ := by
  refine ⟨⟨stmt, by simp, declared, stands.symm⟩, ?_, ?_⟩
  · rw [List.take_left]
    exact fun member => free ⟨name, declared, member⟩
  · rw [List.take_of_length_le (by simp), SymbolTable.names, entries]
    simp

end DeclaredAt

/-- One statement more can read a name that is declared before it. -/
theorem readAfter_concat (inside : site.index < stmts.length) :
    ReadAfter (stmts ++ [stmt]) site ↔
      ReadAfter stmts site ∨ site.name ∈ stmt.mentioned ∧ ¬stmt.Redeclares (tableAfter stmts) := by
  constructor
  · rintro ⟨later, other, behind, found, occurs, free⟩
    by_cases old : later < stmts.length
    · rw [List.getElem?_append_left old] at found
      rw [List.take_append_of_le_length (Nat.le_of_lt old)] at free
      exact .inl ⟨later, other, behind, found, occurs, free⟩
    · have bound := (List.getElem?_eq_some_iff.mp found).1
      rw [List.length_append, List.length_singleton] at bound
      obtain rfl : later = stmts.length := by omega
      rw [List.getElem?_concat_length, Option.some.injEq] at found
      rw [List.take_left] at free
      subst found
      exact .inr ⟨occurs, free⟩
  · rintro (⟨later, other, behind, found, occurs, free⟩ | ⟨occurs, free⟩)
    · have old := (List.getElem?_eq_some_iff.mp found).1
      refine ⟨later, other, behind, ?_, occurs, ?_⟩
      · rw [List.getElem?_append_left old]
        exact found
      · rw [List.take_append_of_le_length (Nat.le_of_lt old)]
        exact free
    · refine ⟨stmts.length, stmt, inside, List.getElem?_concat_length .., occurs, ?_⟩
      rw [List.take_left]
      exact free

/-- Nothing lies behind the last statement. -/
theorem not_readAfter_last (h : site.index + 1 = stmts.length) : ¬ReadAfter stmts site := by
  rintro ⟨later, stmt, behind, found, -⟩
  have bound := (List.getElem?_eq_some_iff.mp found).1
  omega

/-- The entry stems from the statement at its index, and tells whether the name is read later. -/
structure Agrees (stmts : List Stmt) (traced : Traced) : Prop where
  declared : DeclaredAt stmts traced.site
  used : traced.entry.2.used = true ↔ ReadAfter stmts traced.site

/-- An entry after one statement more that reads some names. -/
theorem Agrees.concat {traced : Traced} (h : Agrees stmts traced) {names : List String}
    (reads : traced.site.name ∈ names ↔
      traced.site.name ∈ stmt.mentioned ∧ ¬stmt.Redeclares (tableAfter stmts)) :
    Agrees (stmts ++ [stmt]) (traced.read names) := by
  refine ⟨h.declared.concat stmt, ?_⟩
  rw [Traced.site_read, readAfter_concat h.declared.index_lt, ← h.used, ← reads]
  simp [Traced.read, Traced.site, SymbolTable.readAmong]

/-- The entries of a table in the order of the statements that declare them. -/
structure Trace (stmts : List Stmt) (entries : List (String × Symbol)) (trace : List Traced) :
    Prop where
  entries_eq : trace.map (·.entry) = entries
  ordered : trace.Pairwise fun traced later => traced.index < later.index
  agrees : ∀ traced ∈ trace, Agrees stmts traced

namespace Trace

variable {entries : List (String × Symbol)} {trace : List Traced}

/-- One statement more that reads some names. -/
theorem concat (h : Trace stmts entries trace) (stmt : Stmt) (names : List String)
    (reads : ∀ name, name ∈ names ↔
      name ∈ stmt.mentioned ∧ ¬stmt.Redeclares (tableAfter stmts)) :
    Trace (stmts ++ [stmt]) (entries.map (SymbolTable.readAmong names))
      (trace.map (Traced.read names)) := by
  refine ⟨?_, ?_, ?_⟩
  · rw [← h.entries_eq, List.map_map, List.map_map]
    rfl
  · exact List.pairwise_map.mpr h.ordered
  · intro traced member
    obtain ⟨old, among, rfl⟩ := List.mem_map.mp member
    exact (h.agrees old among).concat (reads _)

/-- One entry more, of the last statement. -/
theorem enter (h : Trace (stmts ++ [stmt]) entries trace) {name : String} {symbol : Symbol}
    (earlier : ∀ traced ∈ trace, traced.index < stmts.length) (unread : symbol.used = false)
    (declared : DeclaredAt (stmts ++ [stmt]) ⟨stmts.length, name, symbol.location⟩) :
    Trace (stmts ++ [stmt]) (entries ++ [(name, symbol)])
      (trace ++ [⟨stmts.length, name, symbol⟩]) := by
  refine ⟨?_, ?_, ?_⟩
  · rw [List.map_append, h.entries_eq]
    rfl
  · refine List.pairwise_append.mpr ⟨h.ordered, List.pairwise_singleton .., ?_⟩
    intro traced member last only
    rw [List.mem_singleton.mp only]
    exact earlier traced member
  · intro traced member
    rcases List.mem_append.mp member with old | new
    · exact h.agrees traced old
    · rw [List.mem_singleton.mp new]
      refine ⟨declared, iff_of_false (by simp [unread]) (not_readAfter_last ?_)⟩
      simp [Traced.site]

end Trace

theorem exists_trace (stmts : List Stmt) :
    ∃ trace, Trace stmts (tableAfter stmts).entries trace := by
  induction stmts using List.reverseRecOn with
  | nil => exact ⟨[], rfl, .nil, by simp⟩
  | append_singleton stmts stmt ih =>
    obtain ⟨trace, h⟩ := ih
    have effect := effect_concat stmts stmt
    generalize next_eq : tableAfter (stmts ++ [stmt]) = next at effect ⊢
    cases effect with
    | rejected taken =>
      have read := h.concat stmt [] (by simp [taken])
      have same := (tableAfter stmts).entries_markAll []
      rw [← same] at read
      exact ⟨_, read⟩
    | reads free =>
      have read := h.concat stmt stmt.mentioned (by simp [free])
      rw [← SymbolTable.entries_markAll] at read
      exact ⟨_, read⟩
    | declares free declared unread stands entries =>
      have read := h.concat stmt stmt.mentioned (by simp [free])
      rw [← SymbolTable.entries_markAll] at read
      rw [entries]
      refine ⟨_, read.enter ?_ unread (.last declared free stands (next_eq ▸ entries))⟩
      intro traced member
      obtain ⟨old, among, rfl⟩ := List.mem_map.mp member
      exact (h.agrees old among).declared.index_lt

end Stmt

theorem unreadMessage_inj {name other : String} :
    unreadMessage name = unreadMessage other ↔ name = other := by
  unfold unreadMessage
  rw [String.append_left_inj, String.append_right_inj]

/-- The warnings about a name are those of the sites that bear it. -/
theorem Site.filter_warnings (sink : Sink) (sites : List Site) (name : String) :
    (sites.map fun site => sink.stamp site.warning).filter
        (fun d => decide (d.message = unreadMessage name)) =
      (sites.filter fun site => decide (site.name = name)).map
        fun site => sink.stamp site.warning := by
  rw [List.filter_map]
  congr 2
  funext site
  simp only [Function.comp_apply, decide_eq_decide]
  exact unreadMessage_inj

/-- A table has one entry for each of its names. -/
theorem SymbolTable.filter_name {table : SymbolTable} {entry : String × Symbol}
    (member : entry ∈ table.entries) :
    table.entries.filter (fun other => decide (other.1 = entry.1)) = [entry] := by
  obtain ⟨before, after, whole⟩ := List.append_of_mem member
  have nodup := table.nodup
  rw [whole, List.map_append, List.map_cons, List.nodup_append, List.nodup_cons] at nodup
  obtain ⟨-, ⟨absent, -⟩, apart⟩ := nodup
  have none_before : before.filter (fun other => decide (other.1 = entry.1)) = [] := by
    refine List.filter_eq_nil_iff.mpr fun other among => ?_
    simpa using apart _ (List.mem_map_of_mem among) entry.1 (by simp)
  have none_after : after.filter (fun other => decide (other.1 = entry.1)) = [] := by
    refine List.filter_eq_nil_iff.mpr fun other among same => absent ?_
    rw [← of_decide_eq_true same]
    exact List.mem_map_of_mem among
  rw [whole, List.filter_append, List.filter_cons_of_pos (by simp), none_before, none_after]
  rfl

namespace Stmt.Trace

variable {stmts : List Stmt} {table : SymbolTable} {trace : List Traced}

/-- The sites of the entries that have not been read. -/
def due (trace : List Traced) : List Site :=
  (trace.filter fun traced => !traced.entry.2.used).map Traced.site

theorem warnings_due (h : Trace stmts table.entries trace) :
    table.unused.map unusedWarning = (due trace).map Site.warning := by
  rw [SymbolTable.unused, ← h.entries_eq, List.filter_map, due, List.map_map, List.map_map]
  rfl

theorem ordered_due (h : Trace stmts table.entries trace) :
    (due trace).Pairwise fun site later => site.index < later.index :=
  List.pairwise_map.mpr (h.ordered.filter _)

theorem of_mem_due (h : Trace stmts table.entries trace) {site : Site} (member : site ∈ due trace) :
    DeclaredAt stmts site ∧ ¬ReadAfter stmts site ∧ site.name ∈ table.names := by
  obtain ⟨traced, among, rfl⟩ := List.mem_map.mp member
  obtain ⟨among, unread⟩ := List.mem_filter.mp among
  obtain ⟨declared, used⟩ := h.agrees traced among
  refine ⟨declared, fun read => ?_, ?_⟩
  · simp [used.mpr read] at unread
  · rw [SymbolTable.names, ← h.entries_eq, List.map_map]
    exact List.mem_map_of_mem among

/-- The site of a name in the table is due exactly if the name is not read after it. -/
theorem exists_site (h : Trace stmts table.entries trace) {name : String}
    (member : name ∈ table.names) :
    ∃ site, DeclaredAt stmts site ∧ site.name = name ∧
      (ReadAfter stmts site → (due trace).filter (fun other => decide (other.name = name)) = []) ∧
      (¬ReadAfter stmts site →
        (due trace).filter (fun other => decide (other.name = name)) = [site]) := by
  obtain ⟨entry, among, rfl⟩ := List.mem_map.mp member
  have only := SymbolTable.filter_name among
  rw [← h.entries_eq, List.filter_map, List.map_eq_singleton_iff] at only
  obtain ⟨traced, alone, rfl⟩ := only
  have among : traced ∈ trace := (List.mem_filter.mp (alone ▸ List.mem_singleton_self traced)).1
  obtain ⟨declared, used⟩ := h.agrees traced among
  have found : (due trace).filter (fun other => decide (other.name = traced.entry.1)) =
      ([traced].filter fun traced => !traced.entry.2.used).map Traced.site := by
    rw [← alone, due, List.filter_map, List.filter_filter, List.filter_filter]
    congr 2
    funext other
    exact Bool.and_comm _ _
  refine ⟨traced.site, declared, rfl, fun read => ?_, fun unread => ?_⟩
  · rw [found, List.filter_cons_of_neg (by simp [used.mpr read])]
    rfl
  · have idle : traced.entry.2.used = false := Bool.eq_false_iff.mpr (mt used.mp unread)
    rw [found, List.filter_cons_of_pos (by simp [idle])]
    rfl

end Stmt.Trace

/-- The analysis of a program on its own, for any sink: behind its errors it warns of the declared
names that no later statement reads, once each, at their declarations and in the order of these. -/
theorem Sink.analyse_warns_of_unread (sink : Sink) (program : Program) :
    let stmts := program.statements
    let analysed := sink.analyse .empty program
    ∃ (errors warnings : List Diagnostic) (sites : List Site),
      analysed.2.records = sink.records ++ (errors ++ warnings) ∧
      (∀ d ∈ errors, d.isError = true) ∧
      warnings = sites.map (fun site => sink.stamp site.warning) ∧
      (sites.Pairwise fun site later => site.index < later.index) ∧
      (∀ site ∈ sites, Stmt.DeclaredAt stmts site ∧ ¬Stmt.ReadAfter stmts site ∧
        site.name ∈ analysed.1.symbols.names) ∧
      ∀ name ∈ analysed.1.symbols.names, ∃ site, Stmt.DeclaredAt stmts site ∧ site.name = name ∧
        (Stmt.ReadAfter stmts site →
          warnings.filter (fun d => decide (d.message = unreadMessage name)) = []) ∧
        (¬Stmt.ReadAfter stmts site →
          warnings.filter (fun d => decide (d.message = unreadMessage name)) =
            [sink.stamp site.warning]) := by
  obtain ⟨trace, h⟩ := Stmt.exists_trace program.statements
  let raised := (Analysis.ofProgram .empty program).errors.map SemanticError.diagnostic
  refine ⟨raised.map sink.stamp, _, Stmt.Trace.due trace, ?_, ?_, rfl, h.ordered_due,
    fun site => h.of_mem_due, ?_⟩
  · have due := (congrArg (List.map sink.stamp) h.warnings_due).trans List.map_map
    refine (sink.records_analyse .empty program).trans ?_
    exact congrArg (fun warnings => sink.records ++ (raised.map sink.stamp ++ warnings)) due
  · intro d member
    obtain ⟨_, among, rfl⟩ := List.mem_map.mp member
    obtain ⟨error, -, rfl⟩ := List.mem_map.mp among
    rfl
  · intro name member
    obtain ⟨site, declared, same, read, unread⟩ := h.exists_site member
    refine ⟨site, declared, same, fun later => ?_, fun later => ?_⟩
    · rw [Site.filter_warnings, read later]
      rfl
    · rw [Site.filter_warnings, unread later]
      rfl

/-- `new x int = 1`, and the same name again with a value that reads it: `new x int = x`. -/
def redeclaration : Program :=
  .ofStatements [.scalar "x" .int (.literal (.integer 1) ⟨1, 13⟩) ⟨1, 1⟩,
    .scalar "x" .int (.identifier "x" ⟨2, 13⟩) ⟨2, 1⟩]

/-- The value of a redeclaration is not looked at, so there is a warning about a name that occurs
in a later statement. -/
theorem Sink.analyse_warns_of_redeclaration :
    Stmt.DeclaredAt redeclaration.statements ⟨0, "x", ⟨1, 1⟩⟩ ∧
    "x" ∈ ((Sink.empty none).analyse .empty redeclaration).1.symbols.names ∧
    (∃ stmt, redeclaration.statements[1]? = some stmt ∧ "x" ∈ stmt.mentioned) ∧
    ((Sink.empty none).analyse .empty redeclaration).2.records =
      [.pointing .semantic "Variable 'x' is already declared"
        "Use a different variable name or remove the duplicate declaration" ⟨2, 1⟩,
        .pointing .warning "Unused variable 'x'" "Remove this variable or use it in your code"
          ⟨1, 1⟩] := by
  have declared : Stmt.DeclaredAt redeclaration.statements ⟨0, "x", ⟨1, 1⟩⟩ :=
    ⟨⟨_, rfl, rfl, rfl⟩, by decide, by decide⟩
  exact ⟨declared, by decide, ⟨_, rfl, by decide⟩, by decide⟩

end Quill
