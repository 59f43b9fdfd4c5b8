import Quill.Proofs.Typing.Names

/-!
What the check of a statement depends on. Of a table it sees the types of the names that stand in
the statement, and no others; the names of the table are only seen where similar ones are offered.
So a statement and the same one under other names, reached with tables that agree on the types, find
the same and do the same to the symbols, but for the names and for what is offered
(`Stmt.check_mirrors`, `Arrival.added?_renamed`).
-/
namespace Quill

def SemanticCause.Nameless (cause : SemanticCause) : Prop :=
  ∀ f names, (cause.renamed f).offering names = cause

/-- An error about types names types, which a renaming leaves alone. -/
theorem nameless_of_operationType {operator : Operator} {left right : ValueType}
    {cause : SemanticCause} (h : operationType operator left right = .error cause) :
    cause.Nameless := by
  unfold operationType arithmeticType comparisonType at h
  split_ifs at h <;> cases h <;> exact fun _ _ => rfl

theorem nameless_of_elementType? {types : List ValueType} {cause : SemanticCause}
    (h : elementType? types = some (.error cause)) : cause.Nameless := by
  cases types with
  | nil => cases h
  | cons first rest =>
    rw [elementType?, Option.some.injEq] at h
    split_ifs at h
    cases h
    exact fun _ _ => rfl

namespace SymbolTable

def type? (table : SymbolTable) (name : String) : Option ValueType :=
  (table.get? name).map Symbol.type

/-- The names of a list have in another table, where they go by other names, the types that they
have in this one. -/
def Agrees (f : String → String) (table other : SymbolTable) (names : List String) : Prop :=
  ∀ name ∈ names, other.type? (f name) = table.type? name

theorem type?_eq_lookup (table : SymbolTable) (name : String) :
    table.type? name = (table.environment.lookup name).map Declared.type := by
  rw [lookup_environment, Option.map_map]
  rfl

/-- Reading marks an entry and keeps its type, so marks may differ between tables that agree. -/
@[simp] theorem type?_markAll (table : SymbolTable) (read : List String) (name : String) :
    (table.markAll read).type? name = table.type? name := by
  rw [type?_eq_lookup, environment_markAll, ← type?_eq_lookup]

/-- Whether a name is taken is told by whether it has a type, so agreement is asked of types only.
-/
theorem contains_eq_isSome (table : SymbolTable) (name : String) :
    table.contains name = (table.type? name).isSome := by
  rw [type?, Option.isSome_map, Bool.eq_iff_iff, contains, List.contains_iff_mem,
    ← not_iff_not, Bool.not_eq_true, Option.isSome_eq_false_iff, Option.isNone_iff_eq_none, get?,
    List.lookup_eq_none_iff, names, List.mem_map, not_exists]
  simp only [not_and, bne_iff_ne]
  exact forall₂_congr fun entry _ => ne_comm

namespace Agrees

variable {f : String → String} {table other : SymbolTable} {names more : List String}

theorem mono (h : table.Agrees f other names) (among : more ⊆ names) :
    table.Agrees f other more :=
  fun name member => h name (among member)

theorem left (h : table.Agrees f other (names ++ more)) : table.Agrees f other names :=
  h.mono (List.subset_append_left ..)

theorem right (h : table.Agrees f other (names ++ more)) : table.Agrees f other more :=
  h.mono (List.subset_append_right ..)

/-- Only along the identity: a renaming need not have an inverse. -/
theorem symm (h : table.Agrees id other names) : other.Agrees id table names :=
  fun name member => (h name member).symm

/-- Names that are read keep their types. -/
theorem markAll (h : table.Agrees f other names) (read otherRead : List String) :
    (table.markAll read).Agrees f (other.markAll otherRead) names := by
  intro name member
  rw [type?_markAll, type?_markAll]
  exact h name member

end Agrees

end SymbolTable

/-- A check of the same thing under other names, after declarations of `names`: it comes to the same
and has the same errors under the other names, which offer what is similar among `names`. -/
structure Checked.Mirrors {α : Type} (f : String → String) (names : List String)
    (checked other : Checked α) : Prop where
  value : other.value = checked.value
  errors : other.errors = checked.errors.map fun error => (error.renamed f).offering names

namespace Checked.Mirrors

variable {α β : Type} {f : String → String} {names : List String}

theorem clean (value : α) (table other : SymbolTable) :
    (Checked.clean value table).Mirrors f names (.clean value other) := ⟨rfl, rfl⟩

/-- Without names in the cause the errors are the same; errors with names have cases of their own.
-/
theorem faulty (value : α) (table other : SymbolTable) {cause : SemanticCause}
    (nameless : cause.Nameless) (location : Location) :
    (Checked.faulty value table cause location).Mirrors f names
      (.faulty value other cause location) := by
  refine ⟨rfl, ?_⟩
  rw [Checked.faulty, Checked.faulty, List.map_singleton, SemanticError.renamed,
    SemanticError.offering, nameless]

theorem ofType (table other : SymbolTable) (location : Location)
    {outcome : Except SemanticCause ValueType}
    (nameless : ∀ cause, outcome = .error cause → cause.Nameless) :
    (Checked.ofType table location outcome).Mirrors f names (.ofType other location outcome) := by
  cases outcome with
  | ok type => exact clean type table other
  | error cause => exact faulty _ table other (nameless cause rfl) location

/-- The second check starts from two tables again, and these agree if the first checks mirror each
other. -/
theorem andThen {first other : Checked α} {next otherNext : α → SymbolTable → Checked β}
    (hfirst : first.Mirrors f names other)
    (hnext : (next first.value first.symbols).Mirrors f names
      (otherNext first.value other.symbols)) :
    (first.andThen next).Mirrors f names (other.andThen otherNext) := by
  rw [← hfirst.value] at hnext
  refine ⟨?_, ?_⟩
  · rw [value_andThen, value_andThen, hnext.value, hfirst.value]
  · have second := hnext.errors
    simp only [Checked.andThen, List.map_append, hfirst.errors]
    rw [second, hfirst.value]

end Checked.Mirrors

open SymbolTable (Agrees)

section Checks

variable {f : String → String} {table other : SymbolTable}

namespace Expr

theorem identifier_mirrors {name : String} (agrees : other.type? (f name) = table.type? name)
    (place : Location) :
    ((identifier name place).check table).Mirrors f other.names
      (((identifier name place).renamed f).check other) := by
  rw [renamed, check, check]
  unfold SymbolTable.type? at agrees
  cases found : table.get? name with
  | some symbol =>
    rw [found, Option.map_some, Option.map_eq_some_iff] at agrees
    obtain ⟨counterpart, otherFound, same⟩ := agrees
    rw [otherFound]
    dsimp only
    rw [same]
    exact .clean ..
  | none =>
    rw [found, Option.map_none, Option.map_eq_none_iff] at agrees
    rw [agrees]
    exact ⟨rfl, rfl⟩

mutual

/-- An expression sees the types of the names that occur in it. -/
theorem check_mirrors : ∀ (e : Expr) {table other : SymbolTable},
    table.Agrees f other e.mentioned →
      (e.check table).Mirrors f other.names ((e.renamed f).check other)
  | literal value _, table, other, _ => .clean value.type table other
  | identifier name place, _, _, agrees =>
    identifier_mirrors (agrees name (List.mem_singleton_self name)) place
  | binary left operator right place, table, other, agrees => by
    rw [mentioned] at agrees
    have hleft := check_mirrors left agrees.left
    have hright := check_mirrors right
      (agrees.right.markAll left.mentioned (left.renamed f).mentioned)
    rw [SymbolTable.names_markAll, ← symbols_check, ← symbols_check] at hright
    rw [renamed, check, check]
    exact .andThen hleft (.andThen hright (.ofType _ _ place fun _ => nameless_of_operationType))
  | array elements place, table, other, agrees => by
    have helements := checkAll_mirrors elements agrees
    rw [renamed, check, check]
    refine .andThen helements ?_
    cases type_eq : elementType? (checkAll table elements).value with
    | none => exact .clean ..
    | some type =>
      refine .andThen (.ofType _ _ place fun cause failed => ?_) (.clean ..)
      exact nameless_of_elementType? (type_eq.trans (congrArg some failed))

/-- Each expression marks names, so the next one is checked in other tables, which still agree. -/
theorem checkAll_mirrors : ∀ (es : List Expr) {table other : SymbolTable},
    table.Agrees f other (mentionedAll es) →
      (checkAll table es).Mirrors f other.names (checkAll other (renamedAll f es))
  | [], table, other, _ => .clean [] table other
  | e :: rest, table, other, agrees => by
    rw [mentionedAll] at agrees
    have hfirst := check_mirrors e agrees.left
    have hrest := checkAll_mirrors rest
      (agrees.right.markAll e.mentioned (e.renamed f).mentioned)
    rw [SymbolTable.names_markAll, ← symbols_check, ← symbols_check] at hrest
    rw [renamedAll, checkAll, checkAll]
    exact .andThen hfirst (.andThen hrest (.clean ..))

end

end Expr

/-- An array literal has its elements checked, another expression is checked as a whole. -/
theorem ArrayInit.check_mirrors {init : ArrayInit} (agrees : table.Agrees f other init.mentioned)
    (place : Location) :
    (init.check table place).Mirrors f other.names ((init.renamed f).check other place) := by
  cases init with
  | sized => exact .clean ..
  | values value =>
    have onOther : ((value.check table).andThen fun type symbols =>
          if type = .unknown then .clean (none : Option ValueType) symbols
          else .faulty none symbols .initializerNotArray place).Mirrors f other.names
        (((value.renamed f).check other).andThen fun type symbols =>
          if type = .unknown then .clean none symbols
          else .faulty none symbols .initializerNotArray place) := by
      refine .andThen (value.check_mirrors agrees) ?_
      split
      · exact .clean ..
      · exact .faulty _ _ _ (fun _ _ => rfl) place
    cases value with
    | array elements bracket =>
      have helements := Expr.checkAll_mirrors elements agrees
      rw [renamed, Expr.renamed, check, check]
      refine .andThen helements ?_
      cases type_eq : elementType? (Expr.checkAll table elements).value with
      | none => exact .clean ..
      | some type =>
        refine .andThen (.ofType _ _ bracket fun cause failed => ?_) (.clean ..)
        exact nameless_of_elementType? (type_eq.trans (congrArg some failed))
    | literal => exact onOther
    | identifier => exact onOther
    | binary => exact onOther

theorem SymbolTable.value_enter (table : SymbolTable) (name : String) (symbol : Symbol) :
    (table.enter name symbol).value = !table.contains name := by
  by_cases taken : name ∈ table.names
  · rw [enter, declare?, dif_pos taken, contains, List.contains_iff_mem.mpr taken]
    rfl
  · rw [enter, declare?, dif_neg taken, contains,
      Bool.eq_false_iff.mpr (mt List.contains_iff_mem.mp taken)]
    rfl

namespace Stmt

/-- The names that the check of a statement looks up: its own, and those that occur in it. -/
def consulted (stmt : Stmt) : List String := stmt.declared?.toList ++ stmt.mentioned

theorem contains_renamed {name : String} (agrees : other.type? (f name) = table.type? name) :
    other.contains (f name) = table.contains name := by
  rw [SymbolTable.contains_eq_isSome, agrees, SymbolTable.contains_eq_isSome]

theorem redeclares_renamed {stmt : Stmt} (agrees : table.Agrees f other stmt.consulted) :
    (stmt.renamed f).Redeclares other ↔ stmt.Redeclares table := by
  cases declared : stmt.declared? with
  | none =>
    have otherDeclared := stmt.declared?_renamed f
    simp [Redeclares, otherDeclared, declared]
  | some name =>
    have otherDeclared := stmt.declared?_renamed f
    rw [declared, Option.map_some] at otherDeclared
    rw [redeclares_iff declared, redeclares_iff otherDeclared,
      contains_renamed (agrees name (by simp [consulted, declared]))]

/-- Both tables enter the name or neither does, since it is taken in both or free in both. -/
theorem enter_mirrors {name : String} (same : other.contains (f name) = table.contains name)
    (symbol : Symbol) (names : List String) :
    (table.enter name symbol).Mirrors f names (other.enter (f name) symbol) := by
  refine ⟨?_, ?_⟩
  · rw [SymbolTable.value_enter, SymbolTable.value_enter, same]
  · rw [SymbolTable.errors_enter, SymbolTable.errors_enter]
    rfl

/-- A statement sees the types of the names in it. -/
theorem check_mirrors {stmt : Stmt} (agrees : table.Agrees f other stmt.consulted) :
    (stmt.check table).Mirrors f other.names ((stmt.renamed f).check other) := by
  have redeclares := redeclares_renamed agrees
  have inside := agrees.right
  have after := agrees.left.markAll stmt.mentioned (stmt.renamed f).mentioned
  cases stmt with
  | scalar name type value place =>
    have own := contains_renamed (after name (List.mem_singleton_self name))
    rw [redeclares_iff rfl, redeclares_iff rfl] at redeclares
    by_cases taken : table.contains name = true
    · rw [renamed, check, check, if_pos taken, if_pos (redeclares.mpr taken)]
      exact ⟨rfl, rfl⟩
    · rw [renamed, check, check, if_neg taken, if_neg (mt redeclares.mp taken)]
      refine .andThen (value.check_mirrors inside) ?_
      rw [Expr.symbols_check, Expr.symbols_check]
      dsimp only
      split
      · exact .faulty _ _ _ (fun _ _ => rfl) place
      · exact enter_mirrors own _ _
  | array name init place =>
    have own := contains_renamed (after name (List.mem_singleton_self name))
    rw [redeclares_iff rfl, redeclares_iff rfl] at redeclares
    by_cases taken : table.contains name = true
    · rw [renamed, check, check, if_pos taken, if_pos (redeclares.mpr taken)]
      exact ⟨rfl, rfl⟩
    · rw [renamed, check, check, if_neg taken, if_neg (mt redeclares.mp taken)]
      refine .andThen (ArrayInit.check_mirrors inside place) ?_
      rw [ArrayInit.symbols_check, ArrayInit.symbols_check]
      split
      · exact enter_mirrors own _ _
      · exact .clean ..
  | output content place =>
    rw [renamed, check, check]
    exact .andThen (Expr.checkAll_mirrors content.expressions inside) (.clean ..)

end Stmt

end Checks

/-- What a statement enters behind the entries of the names that it reads, if its own name is free:
nothing if its value keeps it out. -/
def Stmt.added? (symbols : SymbolTable) : Stmt → Option (String × Symbol)
  | scalar name type value place =>
    if (scalar name type value place).fails symbols then none
    else some (name, .unread (.ofTypeName type) false place)
  | array name init place =>
    (init.check symbols place).value.map fun type => (name, .unread type true place)
  | output .. => none

/-- What a statement does to the entries: it marks what it mentions and adds at most one. -/
theorem Stmt.entries_check_of_free {symbols : SymbolTable} {stmt : Stmt}
    (free : ¬stmt.Redeclares symbols) :
    (stmt.check symbols).symbols.entries =
      (symbols.markAll stmt.mentioned).entries ++ (stmt.added? symbols).toList := by
  cases stmt with
  | scalar name type value place =>
    have absent := mt (redeclares_iff rfl).mpr free
    rw [check, if_neg absent, Checked.symbols_andThen, Expr.symbols_check, added?]
    by_cases wrong : (value.check symbols).value ≠ .unknown ∧
        (value.check symbols).value ≠ .ofTypeName type
    · have fails : (scalar name type value place).fails symbols = true := decide_eq_true wrong
      rw [if_pos wrong, if_pos fails]
      exact (List.append_nil _).symm
    · have fits : ¬(scalar name type value place).fails symbols = true :=
        fun fails => wrong (of_decide_eq_true fails)
      rw [if_neg wrong, if_neg fits]
      exact entries_enter rfl free _
  | array name init place =>
    have absent := mt (redeclares_iff rfl).mpr free
    rw [check, if_neg absent, Checked.symbols_andThen, ArrayInit.symbols_check, added?]
    cases (init.check symbols place).value with
    | some type => exact entries_enter rfl free _
    | none => exact (List.append_nil _).symm
  | output content place =>
    rw [check, Checked.symbols_andThen, Expr.symbols_checkAll]
    exact (List.append_nil _).symm

theorem Stmt.declared?_of_mem_added? {symbols : SymbolTable} {stmt : Stmt}
    {entry : String × Symbol} (member : entry ∈ stmt.added? symbols) :
    stmt.declared? = some entry.1 := by
  cases stmt with
  | scalar =>
    rw [added?] at member
    split at member <;> cases member
    rfl
  | array =>
    obtain ⟨type, -, rfl⟩ := Option.map_eq_some_iff.mp member
    rfl
  | output => cases member

namespace Arrival

/-- The entry that the statement adds. -/
def added? (arrival : Arrival) : Option (String × Symbol) :=
  if arrival.Redeclares then none else arrival.stmt.added? arrival.symbols

theorem declared?_of_mem_added? {arrival : Arrival} {entry : String × Symbol}
    (member : entry ∈ arrival.added?) : arrival.stmt.declared? = some entry.1 := by
  unfold added? at member
  split at member
  · cases member
  · exact Stmt.declared?_of_mem_added? member

variable {f : String → String} {table other : SymbolTable} {stmt : Stmt}

theorem evaluated_renamed (agrees : table.Agrees f other stmt.consulted) :
    evaluated ⟨other, stmt.renamed f⟩ = (evaluated ⟨table, stmt⟩).map f := by
  have redeclares := Stmt.redeclares_renamed agrees
  by_cases taken : stmt.Redeclares table
  · rw [evaluated, evaluated, if_pos taken, if_pos (redeclares.mpr taken), List.map_nil]
  · rw [evaluated, evaluated, if_neg taken, if_neg (mt redeclares.mp taken),
      Stmt.mentioned_renamed]

/-- The entry of a statement depends on the types of the names in it. -/
theorem added?_renamed (agrees : table.Agrees f other stmt.consulted) :
    added? ⟨other, stmt.renamed f⟩ =
      (added? ⟨table, stmt⟩).map (SymbolTable.renamedEntry f) := by
  have redeclares := Stmt.redeclares_renamed agrees
  by_cases taken : stmt.Redeclares table
  · rw [added?, added?, if_pos taken, if_pos (redeclares.mpr taken), Option.map_none]
  rw [added?, added?, if_neg taken, if_neg (mt redeclares.mp taken)]
  cases stmt with
  | scalar name type value place =>
    have same := (value.check_mirrors agrees.right).value
    rw [Stmt.renamed, Stmt.added?, Stmt.added?, Stmt.fails, Stmt.fails, same]
    split <;> rfl
  | array name init place =>
    have same := (ArrayInit.check_mirrors agrees.right place).value
    rw [Stmt.renamed, Stmt.added?, Stmt.added?, same, Option.map_map]
    rfl
  | output => rfl

end Arrival

/-- What a statement does to the entries. -/
theorem Stmt.entries_check (table : SymbolTable) (stmt : Stmt) :
    (stmt.check table).symbols.entries =
      table.entries.map (SymbolTable.readAmong (Arrival.evaluated ⟨table, stmt⟩)) ++
        (Arrival.added? ⟨table, stmt⟩).toList := by
  rw [Arrival.added?, Arrival.evaluated]
  by_cases taken : stmt.Redeclares table
  · rw [if_pos taken, if_pos taken, symbols_check_of_redeclares taken, SymbolTable.readAmong_nil,
      List.map_id]
    exact (List.append_nil _).symm
  · rw [if_neg taken, if_neg taken, entries_check_of_free taken, SymbolTable.entries_markAll]

section Agreeing

variable {table other : SymbolTable} {stmt : Stmt}

/-- Tables that agree on the names in a statement: it finds the same with both of them, but for what
is offered. -/
theorem Stmt.check_agreeing (agrees : table.Agrees id other stmt.consulted) :
    (stmt.check other).value = (stmt.check table).value ∧
    (stmt.check other).errors = (stmt.check table).errors.map (.offering other.names) := by
  have mirrors := check_mirrors agrees
  rw [renamed_id] at mirrors
  refine ⟨mirrors.value, mirrors.errors.trans (List.map_congr_left fun error _ => ?_)⟩
  rw [SemanticError.renamed_id]

theorem Stmt.renames_agreeing (agrees : table.Agrees id other stmt.consulted) :
    List.Forall₂ (Finding.Renames id) ((stmt.check table).errors.map .error)
      ((stmt.check other).errors.map .error) := by
  rw [(check_agreeing agrees).2, List.map_map]
  refine List.forall₂_map_left_iff.mpr (List.forall₂_map_right_iff.mpr ?_)
  refine List.forall₂_same.mpr fun error _ => ?_
  have renames := @SemanticError.renames_offering id other.names error
  rw [SemanticError.renamed_id] at renames
  exact renames

/-- What is offered for an undefined name is what is similar among the declared names. -/
theorem Stmt.offering_of_mem_errors {error : SemanticError}
    (member : error ∈ (stmt.check table).errors) : error.offering table.names = error := by
  have agrees : table.Agrees id table stmt.consulted := fun _ _ => rfl
  have same := (check_agreeing agrees).2
  rw [← List.map_id (stmt.check table).errors, List.map_map] at same
  exact (List.map_inj_left.mp same error member).symm

theorem Arrival.evaluated_agreeing (agrees : table.Agrees id other stmt.consulted) :
    evaluated ⟨other, stmt⟩ = evaluated ⟨table, stmt⟩ := by
  have same := evaluated_renamed agrees
  rw [Stmt.renamed_id, List.map_id] at same
  exact same

theorem Arrival.added?_agreeing (agrees : table.Agrees id other stmt.consulted) :
    added? ⟨other, stmt⟩ = added? ⟨table, stmt⟩ := by
  have same := added?_renamed agrees
  rw [Stmt.renamed_id] at same
  rw [same]
  exact congrFun Option.map_id _

end Agreeing

end Quill
