import Quill.Proofs.Tree.Source
import Quill.Proofs.Typing.Expression

/-!
Places make no difference to the analysis. Of a program whose places are dropped, and after
declarations whose places are, it finds what it finds with them, but for the places
(`Analysis.ofProgram_unplaced`).
-/
namespace Quill

def Symbol.unplaced (symbol : Symbol) : Symbol := { symbol with location := .start }

namespace SymbolTable

def unplacedEntry (entry : String × Symbol) : String × Symbol := (entry.1, entry.2.unplaced)

/-- Names are kept, and with them the proof that a table carries. -/
theorem names_unplacedEntry (entries : List (String × Symbol)) :
    (entries.map unplacedEntry).map (·.1) = entries.map (·.1) := by
  simp [unplacedEntry, Function.comp_def]

def unplaced (table : SymbolTable) : SymbolTable :=
  ⟨table.entries.map unplacedEntry, by
    rw [names_unplacedEntry]
    exact table.nodup⟩

variable {table : SymbolTable}

@[simp] theorem names_unplaced : table.unplaced.names = table.names :=
  names_unplacedEntry table.entries

@[simp] theorem contains_unplaced (name : String) :
    table.unplaced.contains name = table.contains name := by
  rw [contains, names_unplaced, contains]

/-- Lookup goes by names. -/
theorem get?_unplaced (name : String) :
    table.unplaced.get? name = (table.get? name).map Symbol.unplaced :=
  table.lookup_map Symbol.unplaced name

theorem readEntry_unplacedEntry (name : String) (entry : String × Symbol) :
    readEntry name (unplacedEntry entry) = unplacedEntry (readEntry name entry) := by
  by_cases same : entry.1 = name <;> simp [readEntry, unplacedEntry, same, Symbol.unplaced]

theorem markUsed_unplaced (name : String) :
    table.unplaced.markUsed name = (table.markUsed name).unplaced := by
  apply ext_entries
  simp only [markUsed, unplaced, List.map_map]
  exact List.map_congr_left fun entry _ => readEntry_unplacedEntry name entry

/-- A place does not decide whether a name is taken. -/
theorem declare?_unplaced (name : String) (symbol : Symbol) :
    table.unplaced.declare? name symbol.unplaced = (table.declare? name symbol).map unplaced := by
  by_cases taken : name ∈ table.names
  · have bareTaken : name ∈ table.unplaced.names := by rwa [names_unplaced]
    rw [declare?, declare?, dif_pos taken, dif_pos bareTaken]
    rfl
  · have bareFree : name ∉ table.unplaced.names := by rwa [names_unplaced]
    rw [declare?, declare?, dif_neg taken, dif_neg bareFree]
    refine congrArg some (ext_entries ?_)
    simp [unplaced, unplacedEntry]

/-- The mark of an entry that has been read is no place. -/
theorem unused_unplaced : table.unplaced.unused = table.unused.map unplacedEntry := by
  simp only [unused, unplaced, List.filter_map]
  rfl

end SymbolTable

def SemanticError.unplaced (error : SemanticError) : SemanticError := ⟨error.cause, .start⟩

namespace Checked

variable {α β : Type}

/-- A verdict with the places of the symbols and of the errors dropped. -/
def unplaced (checked : Checked α) : Checked α :=
  ⟨checked.value, checked.symbols.unplaced, checked.errors.map SemanticError.unplaced⟩

/-- One check after the other. The second one gets the value of the first as it is, types having no
places, and its table without them. -/
theorem andThen_unplaced {first bare : Checked α} {next bareNext : α → SymbolTable → Checked β}
    (hfirst : bare = first.unplaced)
    (hnext : ∀ value symbols, bareNext value symbols.unplaced = (next value symbols).unplaced) :
    bare.andThen bareNext = (first.andThen next).unplaced := by
  rw [hfirst]
  have second := hnext first.value first.symbols
  simp only [andThen, unplaced, List.map_append] at second ⊢
  rw [second]

/-- An error is placed where the node is, so its place is dropped with that of the node. -/
theorem ofType_unplaced (symbols : SymbolTable) (location : Location)
    (type : Except SemanticCause ValueType) :
    ofType symbols.unplaced .start type = (ofType symbols location type).unplaced := by
  cases type <;> rfl

end Checked

namespace Expr

mutual

theorem check_unplaced (symbols : SymbolTable) : ∀ e : Expr,
    check symbols.unplaced e.unplaced = (check symbols e).unplaced
  | literal .. => rfl
  | identifier name location => by
    rw [unplaced, check, check, SymbolTable.get?_unplaced]
    cases symbols.get? name with
    | some symbol =>
      simp only [Option.map, SymbolTable.markUsed_unplaced]
      rfl
    | none =>
      simp only [Option.map, SymbolTable.names_unplaced]
      rfl
  | binary left operator right location => by
    rw [unplaced, check, check]
    exact Checked.andThen_unplaced (check_unplaced symbols left) fun leftType symbols =>
      Checked.andThen_unplaced (check_unplaced symbols right) fun rightType symbols =>
        Checked.ofType_unplaced symbols location _
  | array elements location => by
    rw [unplaced, check, check]
    refine Checked.andThen_unplaced (checkAll_unplaced symbols elements) fun types symbols => ?_
    split
    · rfl
    · exact Checked.andThen_unplaced (Checked.ofType_unplaced symbols location _) fun _ _ => rfl

theorem checkAll_unplaced (symbols : SymbolTable) : ∀ elements : List Expr,
    checkAll symbols.unplaced (unplacedAll elements) = (checkAll symbols elements).unplaced
  | [] => rfl
  | e :: rest => by
    rw [unplacedAll, checkAll, checkAll]
    exact Checked.andThen_unplaced (check_unplaced symbols e) fun type symbols =>
      Checked.andThen_unplaced (checkAll_unplaced symbols rest) fun _ _ => rfl

end

end Expr

/-- A name that is entered gets a place, the given one. -/
theorem SymbolTable.enter_unplaced (symbols : SymbolTable) (name : String) (symbol : Symbol) :
    symbols.unplaced.enter name symbol.unplaced = (symbols.enter name symbol).unplaced := by
  unfold enter
  rw [declare?_unplaced]
  cases symbols.declare? name symbol <;> rfl

/-- An array literal has its elements checked, any other expression is checked as a whole; the three
other forms are one case, proved in front. -/
theorem ArrayInit.check_unplaced (symbols : SymbolTable) (location : Location) (init : ArrayInit) :
    init.unplaced.check symbols.unplaced .start = (init.check symbols location).unplaced := by
  cases init with
  | sized => rfl
  | values value =>
    have onOther : ∀ e : Expr, (e.unplaced.check symbols.unplaced).andThen (fun type symbols =>
        if type = .unknown then .clean none symbols
        else .faulty none symbols .initializerNotArray .start) =
      ((e.check symbols).andThen fun type symbols =>
        if type = .unknown then .clean (none : Option ValueType) symbols
        else .faulty none symbols .initializerNotArray location).unplaced := by
      intro e
      refine Checked.andThen_unplaced (e.check_unplaced symbols) fun type symbols => ?_
      split <;> rfl
    cases value with
    | array elements place =>
      rw [unplaced, Expr.unplaced, check, check]
      refine Checked.andThen_unplaced (Expr.checkAll_unplaced symbols elements)
        fun types symbols => ?_
      split
      · rfl
      · exact Checked.andThen_unplaced (Checked.ofType_unplaced symbols place _) fun _ _ => rfl
    | literal => exact onOther _
    | identifier => exact onOther _
    | binary => exact onOther _

namespace Stmt

theorem check_unplaced (symbols : SymbolTable) (stmt : Stmt) :
    check symbols.unplaced stmt.unplaced = (check symbols stmt).unplaced := by
  cases stmt with
  | scalar name type value location =>
    rw [unplaced, check, check, SymbolTable.contains_unplaced]
    split
    · rfl
    · refine Checked.andThen_unplaced (value.check_unplaced symbols) fun valueType symbols => ?_
      dsimp only
      split
      · rfl
      · exact symbols.enter_unplaced name (.unread _ false location)
  | array name init location =>
    rw [unplaced, check, check, SymbolTable.contains_unplaced]
    split
    · rfl
    · refine Checked.andThen_unplaced (init.check_unplaced symbols location)
        fun elementType symbols => ?_
      split
      · exact symbols.enter_unplaced name (.unread _ true location)
      · rfl
  | output content location =>
    rw [unplaced, check, check]
    exact Checked.andThen_unplaced (Expr.checkAll_unplaced symbols content.expressions)
      fun _ _ => rfl

theorem checkAll_unplaced (symbols : SymbolTable) (stmts : List Stmt) :
    checkAll symbols.unplaced (stmts.map unplaced) = (checkAll symbols stmts).unplaced := by
  induction stmts generalizing symbols with
  | nil => rfl
  | cons stmt rest ih =>
    rw [List.map_cons, checkAll, checkAll]
    exact Checked.andThen_unplaced (check_unplaced symbols stmt) fun ok symbols =>
      Checked.andThen_unplaced (ih symbols) fun _ _ => rfl

end Stmt

def Analysis.unplaced (analysis : Analysis) : Analysis :=
  ⟨analysis.ok, analysis.symbols.unplaced, analysis.errors.map SemanticError.unplaced⟩

/-- The analysis of a program without its places. -/
theorem Analysis.ofProgram_unplaced (symbols : SymbolTable) (program : Program) :
    ofProgram symbols.unplaced program.unplaced = (ofProgram symbols program).unplaced := by
  have checked := Stmt.checkAll_unplaced symbols program.statements
  simp only [ofProgram, Program.unplaced, checked, Checked.unplaced, unplaced, List.isEmpty_map]

end Quill
