import Quill.Typing.ValueType

/-!
Symbol tables: the declared names in the order of their declaration. There is one flat scope, a name
is declared once, and its entry stays.

The list of entries stands for a package's map that keeps the order of insertion. Its hashing is not
modelled, and the place of a symbol has no file name.
-/
namespace Quill

structure Symbol where
  /-- The type of the variable, or of the array's elements; `array` if an array has none. -/
  type : ValueType
  isArray : Bool
  location : Location
  /-- Whether the name has been read since. -/
  used : Bool
  deriving DecidableEq, Repr

def Symbol.unread (type : ValueType) (isArray : Bool) (location : Location) : Symbol :=
  ⟨type, isArray, location, false⟩

/-- Names and their symbols, the earliest declaration first. -/
structure SymbolTable where
  entries : List (String × Symbol)
  nodup : (entries.map (·.1)).Nodup
  deriving DecidableEq, Repr

namespace SymbolTable

/-- The rest of a table is a proof. -/
theorem ext_entries {table other : SymbolTable} (h : table.entries = other.entries) :
    table = other := by
  cases table
  cases other
  cases h
  rfl

def empty : SymbolTable := ⟨[], List.nodup_nil⟩

def names (table : SymbolTable) : List String :=
  table.entries.map (·.1)

def get? (table : SymbolTable) (name : String) : Option Symbol :=
  table.entries.lookup name

def contains (table : SymbolTable) (name : String) : Bool :=
  table.names.contains name

/-- The table with a new name, unless the name is taken. -/
def declare? (table : SymbolTable) (name : String) (symbol : Symbol) : Option SymbolTable :=
  if taken : name ∈ table.names then none
  else
    some ⟨table.entries ++ [(name, symbol)], by
      rw [List.map_append, List.nodup_append]
      refine ⟨table.nodup, by simp, fun other member last inLast same => taken ?_⟩
      simp only [List.map_cons, List.map_nil, List.mem_singleton] at inLast
      rw [← inLast, ← same]
      exact member⟩

/-- An entry, read if it is that of `name`. -/
def readEntry (name : String) (entry : String × Symbol) : String × Symbol :=
  if entry.1 = name then (entry.1, { entry.2 with used := true }) else entry

@[simp] theorem fst_readEntry (name : String) (entry : String × Symbol) :
    (readEntry name entry).1 = entry.1 := by
  unfold readEntry
  split <;> rfl

/-- The table after a name has been read. A name that is not declared leaves it as it is. -/
def markUsed (table : SymbolTable) (name : String) : SymbolTable :=
  ⟨table.entries.map (readEntry name), by
    have same : (table.entries.map (readEntry name)).map (·.1) = table.entries.map (·.1) := by
      simp [Function.comp_def]
    rw [same]
    exact table.nodup⟩

def unused (table : SymbolTable) : List (String × Symbol) :=
  table.entries.filter fun entry => !entry.2.used

end SymbolTable

end Quill
