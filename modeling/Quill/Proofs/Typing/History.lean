import Mathlib.Data.Finset.Card
import Mathlib.Data.List.Induction
import Quill.Proofs.Typing.Usage

/-!
Symbol tables as their histories. A table that starts out empty is known by the uses that have been
made of it: its names are those that have been declared, each entry is the first declaration of its
name, and the flag tells whether the name has been read behind that declaration
(`SymbolTable.Recounts`). A declaration of a name that is taken leaves no trace, and neither does a
read of a name in front of its declaration.
-/
namespace Quill

/-- One use of a symbol table. What is declared has not been read. -/
inductive SymbolUse where
  | declare (name : String) (type : ValueType) (isArray : Bool) (location : Location)
  | read (name : String)
  deriving DecidableEq, Repr

/-- What a table answers: whether the name was free, or the type of the name if it has one. -/
inductive SymbolAnswer where
  | declared (free : Bool)
  | type (found : Option ValueType)
  deriving DecidableEq, Repr

namespace SymbolUse

def declared? : SymbolUse → Option String
  | declare name .. => some name
  | read _ => none

/-- The names that are declared, in order and as often as they are. -/
def declaredNames (uses : List SymbolUse) : List String := uses.filterMap declared?

/-- An entry is the first declaration of its name, and its flag tells whether the name has been read
behind that. -/
def Tells (uses : List SymbolUse) (entry : String × Symbol) : Prop :=
  ∃ before later,
    uses = before ++
      .declare entry.1 entry.2.type entry.2.isArray entry.2.location :: later ∧
    entry.1 ∉ declaredNames before ∧ (entry.2.used = true ↔ .read entry.1 ∈ later)

variable {uses : List SymbolUse} {entry : String × Symbol} {name : String}

theorem declaredNames_read (uses : List SymbolUse) (name : String) :
    declaredNames (uses ++ [.read name]) = declaredNames uses := by
  simp [declaredNames, declared?]

theorem declaredNames_declare (uses : List SymbolUse) (name : String) (type : ValueType)
    (isArray : Bool) (location : Location) :
    declaredNames (uses ++ [.declare name type isArray location]) =
      declaredNames uses ++ [name] := by
  simp [declaredNames, declared?]

/-- A name more is a name that is new, or one that is there. -/
theorem eraseDups_concat (names : List String) (name : String) :
    (names ++ [name]).eraseDups =
      if name ∈ names then names.eraseDups else names.eraseDups ++ [name] := by
  rw [List.eraseDups_append]
  by_cases known : name ∈ names <;> simp [List.removeAll, List.eraseDups_cons, known]

/-- One more read sets the flag of the name that it reads. -/
theorem Tells.read (h : Tells uses entry) (name : String) :
    Tells (uses ++ [.read name]) (SymbolTable.readEntry name entry) := by
  obtain ⟨before, later, rfl, first, flag⟩ := h
  by_cases same : entry.1 = name
  · refine ⟨before, later ++ [.read name], ?_, ?_, ?_⟩ <;>
      simp [SymbolTable.readEntry, same]
    exact same ▸ first
  · refine ⟨before, later ++ [.read name], ?_, ?_, ?_⟩ <;>
      simp [SymbolTable.readEntry, same, first, flag]

/-- One more declaration is behind the first one, and reads nothing. -/
theorem Tells.declare (h : Tells uses entry) (name : String) (type : ValueType) (isArray : Bool)
    (location : Location) : Tells (uses ++ [.declare name type isArray location]) entry := by
  obtain ⟨before, later, rfl, first, flag⟩ := h
  refine ⟨before, later ++ [.declare name type isArray location], ?_, first, ?_⟩
  · simp
  · simp [flag]

theorem tells_first (first : name ∉ declaredNames uses) (type : ValueType) (isArray : Bool)
    (location : Location) :
    Tells (uses ++ [.declare name type isArray location])
      (name, .unread type isArray location) := by
  refine ⟨uses, [], rfl, first, ?_⟩
  simp [Symbol.unread]

end SymbolUse

namespace SymbolTable

open SymbolUse

/-- The answer to a use, and the table after it. -/
def use (table : SymbolTable) : SymbolUse → SymbolAnswer × SymbolTable
  | .declare name type isArray location =>
    match table.declare? name (.unread type isArray location) with
    | some next => (.declared true, next)
    | none => (.declared false, table)
  | .read name => (.type ((table.get? name).map (·.type)), table.markUsed name)

/-- The answers to uses in order, and the table after them. -/
def run (table : SymbolTable) : List SymbolUse → List SymbolAnswer × SymbolTable
  | [] => ([], table)
  | first :: rest =>
    let (answer, next) := table.use first
    let (answers, last) := next.run rest
    (answer :: answers, last)

variable {table : SymbolTable} {uses : List SymbolUse} {name : String}

theorem run_append (table : SymbolTable) (uses more : List SymbolUse) :
    table.run (uses ++ more) =
      ((table.run uses).1 ++ ((table.run uses).2.run more).1,
        ((table.run uses).2.run more).2) := by
  induction uses generalizing table with
  | nil => rfl
  | cons first rest ih =>
    simp only [List.cons_append, run]
    rw [ih]

theorem length_run (table : SymbolTable) (uses : List SymbolUse) :
    (table.run uses).1.length = uses.length := by
  induction uses generalizing table with
  | nil => rfl
  | cons first rest ih =>
    simp only [run, List.length_cons]
    rw [ih]

/-- The answer to a use comes from the table that the uses before it leave. -/
theorem getElem?_run (table : SymbolTable) (before later : List SymbolUse) (next : SymbolUse) :
    (table.run (before ++ next :: later)).1[before.length]? =
      some ((table.run before).2.use next).1 := by
  rw [run_append]
  dsimp only
  rw [List.getElem?_append_right (Nat.le_of_eq (length_run table before)), length_run]
  simp [run]

theorem use_declare_of_taken {type : ValueType} {isArray : Bool} {location : Location}
    (taken : name ∈ table.names) :
    table.use (.declare name type isArray location) = (.declared false, table) := by
  simp [use, declare?, taken]

/-- A name that is free is entered behind the others. -/
theorem exists_use_declare_of_free (type : ValueType) (isArray : Bool) (location : Location)
    (free : name ∉ table.names) :
    ∃ next : SymbolTable,
      next.entries = table.entries ++ [(name, .unread type isArray location)] ∧
      table.use (.declare name type isArray location) = (.declared true, next) := by
  simp [use, declare?, free]

/-- The table is what the uses tell: its names are those that they declare, in the order of their
first declarations, and each entry tells of its own. -/
structure Recounts (uses : List SymbolUse) (table : SymbolTable) : Prop where
  names_eq : table.names = (declaredNames uses).eraseDups
  tells : ∀ entry ∈ table.entries, Tells uses entry

namespace Recounts

theorem mem_names (h : Recounts uses table) : name ∈ table.names ↔ name ∈ declaredNames uses := by
  rw [h.names_eq, List.mem_eraseDups]

/-- A read marks an entry of its name and no other. -/
theorem read (h : Recounts uses table) (name : String) :
    Recounts (uses ++ [.read name]) (table.markUsed name) := by
  constructor
  · rw [names_markUsed, h.names_eq, declaredNames_read]
  · intro entry member
    obtain ⟨old, among, rfl⟩ := List.mem_map.mp member
    exact (h.tells old among).read name

/-- A declaration of a name that is taken changes nothing. -/
theorem declare_taken (h : Recounts uses table) (taken : name ∈ table.names) (type : ValueType)
    (isArray : Bool) (location : Location) :
    Recounts (uses ++ [.declare name type isArray location]) table := by
  have known : name ∈ declaredNames uses := h.mem_names.mp taken
  constructor
  · rw [h.names_eq, declaredNames_declare, eraseDups_concat, if_pos known]
  · intro entry member
    exact (h.tells entry member).declare name type isArray location

/-- A free name has its entry behind the others. -/
theorem declare_free (h : Recounts uses table) (free : name ∉ table.names) {type : ValueType}
    {isArray : Bool} {location : Location} {next : SymbolTable}
    (entries : next.entries = table.entries ++ [(name, .unread type isArray location)]) :
    Recounts (uses ++ [.declare name type isArray location]) next := by
  have unknown : name ∉ declaredNames uses := fun known => free (h.mem_names.mpr known)
  constructor
  · rw [declaredNames_declare, eraseDups_concat, if_neg unknown, ← h.names_eq, names, entries,
      List.map_append]
    rfl
  · intro entry member
    rw [entries, List.mem_append, List.mem_singleton] at member
    rcases member with old | rfl
    · exact (h.tells entry old).declare name type isArray location
    · exact tells_first unknown type isArray location

theorem use (h : Recounts uses table) (next : SymbolUse) :
    Recounts (uses ++ [next]) (table.use next).2 := by
  cases next with
  | read name => exact h.read name
  | declare name type isArray location =>
    by_cases taken : name ∈ table.names
    · rw [use_declare_of_taken taken]
      exact h.declare_taken taken type isArray location
    · obtain ⟨after, entries, step⟩ := exists_use_declare_of_free type isArray location taken
      rw [step]
      exact h.declare_free taken entries

end Recounts

/-- Whatever the uses of a table are, it is what they tell. -/
theorem recounts_run (uses : List SymbolUse) : Recounts uses (empty.run uses).2 := by
  -- From the end, since what a use does depends on the uses before it.
  induction uses using List.reverseRecOn with
  | nil =>
    constructor
    · rfl
    · intro entry member
      cases member
  | append_singleton uses next ih =>
    rw [run_append]
    exact ih.use next

/-- The names of a table are distinct, so there are as many as are declared at all. -/
theorem Recounts.length_entries (h : Recounts uses table) :
    table.entries.length = (declaredNames uses).toFinset.card := by
  have distinct : table.names.toFinset = (declaredNames uses).toFinset := by
    ext name
    rw [List.mem_toFinset, List.mem_toFinset]
    exact h.mem_names
  have nodup : table.names.Nodup := table.nodup
  rw [← distinct, List.toFinset_card_of_nodup nodup, names, List.length_map]

theorem Recounts.use_declare (h : Recounts uses table) (name : String) (type : ValueType)
    (isArray : Bool) (location : Location) :
    (table.use (.declare name type isArray location)).1 =
      .declared (decide (name ∉ declaredNames uses)) := by
  by_cases taken : name ∈ table.names
  · rw [use_declare_of_taken taken]
    simp [h.mem_names.mp taken]
  · obtain ⟨after, -, step⟩ := exists_use_declare_of_free type isArray location taken
    have unknown : name ∉ declaredNames uses := fun known => taken (h.mem_names.mpr known)
    rw [step]
    simp [unknown]

/-- A name that has been declared has an entry, and no other name has one. -/
theorem Recounts.isSome_get? (h : Recounts uses table) (name : String) :
    (table.get? name).isSome ↔ name ∈ declaredNames uses := by
  rw [← h.mem_names, Option.isSome_iff_exists]
  simp only [get?_eq_some_iff, names, List.mem_map, Prod.exists, exists_and_right,
    exists_eq_right]

/-- A symbol table that starts out empty is the history of its uses. A declaration is accepted
exactly if it is the first one of its name; a read is answered with a type exactly if the name has
been declared before it, and that is the type of the first declaration. In the end the names are
those that have been declared, in the order of their first declarations; each entry has the type,
the place and the kind of its name's first declaration, and is marked exactly if a read of the name
comes behind that; the unread entries are the others, in the same order. -/
theorem run_tells_uses (uses : List SymbolUse) :
    let answers := (empty.run uses).1
    let table := (empty.run uses).2
    answers.length = uses.length ∧
    (∀ before later name type isArray location,
      uses = before ++ .declare name type isArray location :: later →
      answers[before.length]? = some (.declared (decide (name ∉ declaredNames before)))) ∧
    (∀ before later name, uses = before ++ .read name :: later →
      ∃ found, answers[before.length]? = some (.type found) ∧
        (found.isSome ↔ name ∈ declaredNames before) ∧
        ∀ type ∈ found, ∃ symbol, Tells before (name, symbol) ∧ symbol.type = type) ∧
    table.names = (declaredNames uses).eraseDups ∧
    (∀ entry ∈ table.entries, Tells uses entry) ∧
    table.unused.Sublist table.entries ∧
    (∀ entry, entry ∈ table.unused ↔ entry ∈ table.entries ∧ entry.2.used = false) ∧
    table.entries.length = (declaredNames uses).toFinset.card := by
  intro answers table
  have whole := recounts_run uses
  refine ⟨length_run empty uses, ?_, ?_, whole.names_eq, whole.tells, List.filter_sublist,
    fun entry => by simp [unused], whole.length_entries⟩
  · rintro before later name type isArray location rfl
    rw [getElem?_run, (recounts_run before).use_declare]
  · rintro before later name rfl
    have front := recounts_run before
    refine ⟨_, getElem?_run empty before later (.read name), ?_, ?_⟩
    · rw [Option.isSome_map, front.isSome_get?]
    · intro type member
      obtain ⟨symbol, stored, rfl⟩ := Option.map_eq_some_iff.mp member
      exact ⟨symbol, front.tells _ (get?_eq_some_iff.mp stored), rfl⟩

/-- Neither a read in front of the first declaration nor the second declaration leaves a trace. -/
example : (empty.run [.read "x", .declare "x" .int false ⟨1, 1⟩, .declare "x" .bool true ⟨2, 1⟩]) =
    ([.type none, .declared true, .declared false],
      ⟨[("x", .unread .int false ⟨1, 1⟩)], by decide⟩) := by decide

end SymbolTable

end Quill
