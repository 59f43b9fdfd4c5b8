import Mathlib.Data.List.Forall2
import Quill.Compilation

/-!
Which names a program reads. The analysis marks a name when it types an identifier; here the names
that a run has marked are read off the program itself. Each statement marks exactly the names that
occur in it, unless it declares a name that is taken: then it is put aside, and nothing in it is
read (`Stmt.check_effect`).
-/
namespace Quill

namespace Expr

mutual

/-- The names that occur in an expression, from left to right. -/
def mentioned : Expr → List String
  | literal .. => []
  | identifier name _ => [name]
  | binary left _ right _ => mentioned left ++ mentioned right
  | array elements _ => mentionedAll elements

def mentionedAll : List Expr → List String
  | [] => []
  | e :: rest => mentioned e ++ mentionedAll rest

end

end Expr

def ArrayInit.mentioned : ArrayInit → List String
  | values value => value.mentioned
  | sized .. => []

namespace Stmt

def mentioned : Stmt → List String
  | scalar _ _ value _ => value.mentioned
  | array _ init _ => init.mentioned
  | output content _ => Expr.mentionedAll content.expressions

def place : Stmt → Location
  | scalar _ _ _ location => location
  | array _ _ location => location
  | output _ location => location

/-- The statement declares a name that a table has already. -/
def Redeclares (stmt : Stmt) (symbols : SymbolTable) : Prop :=
  ∃ name ∈ stmt.declared?, name ∈ symbols.names

/-- The value of a declaration keeps it from entering its name: a scalar has another type than the
declared one, an array starts with something that is no array. A value without a type does not. -/
def fails (symbols : SymbolTable) : Stmt → Bool
  | scalar _ type value _ =>
    let found := (value.check symbols).value
    found ≠ .unknown ∧ found ≠ .ofTypeName type
  | array _ (.values (.array ..)) _ => false
  | array _ (.values _) _ => true
  | array _ (.sized ..) _ | output .. => false

end Stmt

namespace SymbolTable

/-- The table after several names have been read. -/
def markAll (table : SymbolTable) (names : List String) : SymbolTable :=
  names.foldl markUsed table

@[simp] theorem markAll_append (table : SymbolTable) (names more : List String) :
    table.markAll (names ++ more) = (table.markAll names).markAll more :=
  List.foldl_append

theorem names_markUsed (table : SymbolTable) (name : String) :
    (table.markUsed name).names = table.names := by
  simp [names, markUsed, Function.comp_def]

@[simp] theorem names_markAll (table : SymbolTable) (names : List String) :
    (table.markAll names).names = table.names := by
  induction names generalizing table with
  | nil => rfl
  | cons name rest ih => exact (ih _).trans (table.names_markUsed name)

/-- An entry that has been read in one of several ways. -/
def readAmong (names : List String) (entry : String × Symbol) : String × Symbol :=
  (entry.1, { entry.2 with used := entry.2.used || decide (entry.1 ∈ names) })

theorem readAmong_nil : readAmong [] = id := by
  funext entry
  simp [readAmong]

/-- Marking one name after the other is marking each entry once. -/
theorem entries_markAll (table : SymbolTable) (names : List String) :
    (table.markAll names).entries = table.entries.map (readAmong names) := by
  induction names generalizing table with
  | nil =>
    rw [readAmong_nil, List.map_id]
    rfl
  | cons name rest ih =>
    have step : (table.markUsed name).entries = table.entries.map (readEntry name) := rfl
    refine (ih _).trans ?_
    rw [step, List.map_map]
    congr 1
    funext entry
    by_cases same : entry.1 = name <;> simp [readAmong, readEntry, same]

/-- No two entries have one name, so looking a name up finds the only one. -/
theorem get?_eq_some_iff {table : SymbolTable} {name : String} {symbol : Symbol} :
    table.get? name = some symbol ↔ (name, symbol) ∈ table.entries := by
  constructor
  · intro found
    obtain ⟨before, after, whole, -⟩ := List.lookup_eq_some_iff.mp found
    rw [whole]
    simp
  · intro member
    obtain ⟨before, after, whole⟩ := List.append_of_mem member
    have nodup := table.nodup
    rw [whole, List.map_append, List.nodup_append] at nodup
    refine List.lookup_eq_some_iff.mpr ⟨before, after, whole, fun entry among => bne_iff_ne.mpr ?_⟩
    exact (nodup.2.2 entry.1 (List.mem_map_of_mem among) name (by simp)).symm

/-- A name that is not declared is not marked. -/
theorem markUsed_of_get?_eq_none {table : SymbolTable} {name : String}
    (h : table.get? name = none) : table.markUsed name = table := by
  apply ext_entries
  have other : ∀ entry ∈ table.entries, readEntry name entry = entry := by
    intro entry member
    have differs : entry.1 ≠ name := by
      have absent := List.lookup_eq_none_iff.mp h entry member
      exact (bne_iff_ne.mp absent).symm
    simp [readEntry, differs]
  exact (List.map_congr_left other).trans (List.map_id' _)

end SymbolTable

namespace Checked

variable {α β : Type}

theorem symbols_andThen (first : Checked α) (next : α → SymbolTable → Checked β) :
    (first.andThen next).symbols = (next first.value first.symbols).symbols := rfl

theorem value_andThen (first : Checked α) (next : α → SymbolTable → Checked β) :
    (first.andThen next).value = (next first.value first.symbols).value := rfl

theorem symbols_ofType (symbols : SymbolTable) (location : Location)
    (outcome : Except SemanticCause ValueType) :
    (ofType symbols location outcome).symbols = symbols := by
  cases outcome <;> rfl

end Checked

namespace Expr

theorem symbols_check_array {elements : List Expr} {place : Location} {symbols after : SymbolTable}
    (h : (checkAll symbols elements).symbols = after) :
    ((array elements place).check symbols).symbols = after := by
  rw [check, Checked.symbols_andThen, h]
  split
  · rfl
  · exact Checked.symbols_ofType after place _

mutual

/-- Typing an expression marks the names that occur in it, whatever its type is. -/
theorem symbols_check (symbols : SymbolTable) :
    (e : Expr) → (e.check symbols).symbols = symbols.markAll e.mentioned
  | literal _ _ => by rw [check, mentioned]; rfl
  | identifier name _ => by
    rw [check, mentioned]
    split
    · rfl
    · next absent => exact (SymbolTable.markUsed_of_get?_eq_none absent).symm
  | binary left operator right place => by
    have hleft := symbols_check symbols left
    have hright := symbols_check (symbols.markAll left.mentioned) right
    rw [check, mentioned, SymbolTable.markAll_append]
    simp only [Checked.symbols_andThen, Checked.symbols_ofType, hleft, hright]
  | array elements _ => by
    rw [mentioned]
    exact symbols_check_array (symbols_checkAll symbols elements)

/-- With its companion for one expression: a check marks what is mentioned, found or not, well typed
or not. -/
theorem symbols_checkAll (symbols : SymbolTable) :
    (es : List Expr) → (checkAll symbols es).symbols = symbols.markAll (mentionedAll es)
  | [] => by rw [checkAll, mentionedAll]; rfl
  | e :: rest => by
    have hfirst := symbols_check symbols e
    have hrest := symbols_checkAll (symbols.markAll e.mentioned) rest
    rw [checkAll, mentionedAll, SymbolTable.markAll_append]
    simp only [Checked.symbols_andThen, hfirst, hrest]
    rfl

end

end Expr

theorem ArrayInit.symbols_check (symbols : SymbolTable) (place : Location) (init : ArrayInit) :
    (init.check symbols place).symbols = symbols.markAll init.mentioned := by
  unfold check
  split
  · rfl
  · next elements bracket =>
    rw [Checked.symbols_andThen, Expr.symbols_checkAll, mentioned, Expr.mentioned]
    split
    · rfl
    · exact Checked.symbols_ofType _ bracket _
  · next value _ =>
    rw [Checked.symbols_andThen, Expr.symbols_check, mentioned]
    split <;> rfl

namespace Stmt

/-- What a statement does to the symbols. -/
inductive Effect (symbols : SymbolTable) (stmt : Stmt) : SymbolTable → Prop
  /-- Its name is taken, and it is put aside. -/
  | rejected (taken : stmt.Redeclares symbols) : Effect symbols stmt symbols
  /-- It enters no name. -/
  | reads (free : ¬stmt.Redeclares symbols) :
      Effect symbols stmt (symbols.markAll stmt.mentioned)
  /-- It enters its name behind the others. -/
  | declares {name : String} {symbol : Symbol} {next : SymbolTable}
      (free : ¬stmt.Redeclares symbols) (declared : stmt.declared? = some name)
      (unread : symbol.used = false) (stands : symbol.location = stmt.place)
      (entries : next.entries = (symbols.markAll stmt.mentioned).entries ++ [(name, symbol)]) :
      Effect symbols stmt next

variable {symbols : SymbolTable} {stmt : Stmt} {name : String}

theorem redeclares_iff (declared : stmt.declared? = some name) :
    stmt.Redeclares symbols ↔ symbols.contains name = true := by
  simp [Redeclares, declared, SymbolTable.contains]

/-- A statement whose name is taken is put aside. -/
theorem symbols_check_of_redeclares (taken : stmt.Redeclares symbols) :
    (stmt.check symbols).symbols = symbols := by
  cases stmt with
  | scalar | array =>
    rw [check, if_pos ((redeclares_iff rfl).mp taken)]
    rfl
  | output =>
    obtain ⟨name, declared, -⟩ := taken
    cases declared

/-- The name of a statement that has been read through is entered behind the others. -/
theorem entries_enter (declared : stmt.declared? = some name) (free : ¬stmt.Redeclares symbols)
    (symbol : Symbol) :
    ((symbols.markAll stmt.mentioned).enter name symbol).symbols.entries =
      (symbols.markAll stmt.mentioned).entries ++ [(name, symbol)] := by
  have absent : name ∉ (symbols.markAll stmt.mentioned).names := by
    rw [SymbolTable.names_markAll]
    intro member
    exact free ⟨name, declared, member⟩
  rw [SymbolTable.enter, SymbolTable.declare?, dif_neg absent]
  rfl

/-- An array fails exactly if the check of what it starts with gives no type. -/
theorem fails_array (symbols : SymbolTable) (name : String) (init : ArrayInit) (place : Location) :
    (array name init place).fails symbols = (init.check symbols place).value.isNone := by
  unfold ArrayInit.check
  split
  · rfl
  · rw [Checked.value_andThen]
    split <;> rfl
  · next value notArray =>
    rw [Checked.value_andThen, fails]
    · split <;> rfl
    · exact notArray

/-- A statement that is not put aside reads the names in it. Then it enters its own, if it has one
and does not fail. -/
theorem symbols_check (free : ¬stmt.Redeclares symbols) :
    ((stmt.declared? = none ∨ stmt.fails symbols = true) ∧
      (stmt.check symbols).symbols = symbols.markAll stmt.mentioned) ∨
    ∃ name type isArray, stmt.declared? = some name ∧ stmt.fails symbols = false ∧
      (stmt.check symbols).symbols = ((symbols.markAll stmt.mentioned).enter name
        (.unread type isArray stmt.place)).symbols := by
  cases stmt with
  | scalar name type value place =>
    have absent := mt (redeclares_iff rfl).mpr free
    rw [check, if_neg absent, Checked.symbols_andThen, Expr.symbols_check]
    dsimp only
    split
    · next wrong => exact .inl ⟨.inr (decide_eq_true wrong), rfl⟩
    · next fits => exact .inr ⟨name, _, false, rfl, decide_eq_false fits, rfl⟩
  | array name init place =>
    have absent := mt (redeclares_iff rfl).mpr free
    rw [check, if_neg absent, Checked.symbols_andThen, ArrayInit.symbols_check]
    have begins := fails_array symbols name init place
    cases found : (init.check symbols place).value with
    | some type =>
      rw [found] at begins
      exact .inr ⟨name, type, true, rfl, begins, rfl⟩
    | none =>
      rw [found] at begins
      exact .inl ⟨.inr begins, rfl⟩
  | output content place =>
    refine .inl ⟨.inl rfl, ?_⟩
    rw [check, Checked.symbols_andThen, Expr.symbols_checkAll]
    rfl

/-- The three forms of statements, each with a name that is free or taken. -/
theorem check_effect (symbols : SymbolTable) (stmt : Stmt) :
    Effect symbols stmt (stmt.check symbols).symbols := by
  by_cases taken : stmt.Redeclares symbols
  · rw [symbols_check_of_redeclares taken]
    exact .rejected taken
  · rcases symbols_check taken with ⟨-, same⟩ | ⟨name, type, isArray, declared, -, same⟩
    · rw [same]
      exact .reads taken
    · rw [same]
      exact .declares taken declared rfl rfl (entries_enter declared taken _)

end Stmt

end Quill
