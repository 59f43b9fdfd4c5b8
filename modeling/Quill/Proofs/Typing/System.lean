import Quill.Typing.ValueType

/-!
The static semantics, as a system of rules. The rules say nothing about an order of checking, about
errors or about which names are read. No rule gives a phrase the type `unknown`, so no name that a
derivation enters has it.
-/
namespace Quill

/-- What an environment keeps of a declared name. -/
structure Declared where
  /-- The type of the variable, or of the array's elements; `array` if an array has none. -/
  type : ValueType
  isArray : Bool
  location : Location
  deriving DecidableEq, Repr

/-- The declared names, the earliest declaration first. -/
abbrev Environment := List (String × Declared)

namespace Environment

def extend (Γ : Environment) (name : String) (declared : Declared) : Environment :=
  Γ ++ [(name, declared)]

def Fresh (Γ : Environment) (name : String) : Prop := name ∉ Γ.map (·.1)

/-- All entries have a proper type. -/
def Known (Γ : Environment) : Prop := ∀ entry ∈ Γ, entry.2.type ≠ .unknown

theorem known_nil : Known [] := by
  intro entry member
  cases member

/-- The type `unknown` comes from errors alone, and only proper types are entered here. -/
theorem Known.extend {Γ : Environment} (h : Γ.Known) {name : String} {declared : Declared}
    (proper : declared.type ≠ .unknown) : (Γ.extend name declared).Known := by
  intro entry member
  rcases List.mem_append.mp member with old | new
  · exact h entry old
  · rw [List.mem_singleton.mp new]
    exact proper

theorem Known.lookup {Γ : Environment} (h : Γ.Known) {name : String} {declared : Declared}
    (found : Γ.lookup name = some declared) : declared.type ≠ .unknown := by
  obtain ⟨before, after, whole, -⟩ := List.lookup_eq_some_iff.mp found
  exact h (name, declared) (by simp [whole])

end Environment

def Operator.arithmetic : List Operator := [.add, .subtract, .multiply, .divide]

def Operator.comparisons : List Operator :=
  [.equal, .notEqual, .less, .lessEqual, .greater, .greaterEqual]

/-- The types that an operator takes on its left and its right, and the type of the result. -/
inductive Operates : Operator → ValueType → ValueType → ValueType → Prop
  | concat {left right : ValueType} (text : left = .string ∨ right = .string) :
      Operates .add left right .string
  | integers {operator : Operator} (computes : operator ∈ Operator.arithmetic) :
      Operates operator .int .int .int
  | floats {operator : Operator} {left right : ValueType}
      (computes : operator ∈ Operator.arithmetic) (hleft : left ∈ [.int, .float])
      (hright : right ∈ [.int, .float]) (float : left = .float ∨ right = .float) :
      Operates operator left right .float
  | alike {operator : Operator} {type : ValueType} (compares : operator ∈ Operator.comparisons) :
      Operates operator type type .bool
  | numbers {operator : Operator} {left right : ValueType}
      (compares : operator ∈ Operator.comparisons) (hleft : left ∈ [.int, .float])
      (hright : right ∈ [.int, .float]) : Operates operator left right .bool

inductive HasType (Γ : Environment) : Expr → ValueType → Prop
  | integer {n : Int} {place : Location} : HasType Γ (.literal (.integer n) place) .int
  | float {x : Binary32} {place : Location} : HasType Γ (.literal (.float x) place) .float
  | string {text : String} {place : Location} : HasType Γ (.literal (.string text) place) .string
  | bool {b : Bool} {place : Location} : HasType Γ (.literal (.bool b) place) .bool
  | identifier {name : String} {declared : Declared} {place : Location}
      (found : Γ.lookup name = some declared) : HasType Γ (.identifier name place) declared.type
  | binary {left right : Expr} {operator : Operator} {leftType rightType type : ValueType}
      {place : Location} (hleft : HasType Γ left leftType) (hright : HasType Γ right rightType)
      (operates : Operates operator leftType rightType type) :
      HasType Γ (.binary left operator right place) type
  | array {elements : List Expr} {type : ValueType} {place : Location}
      (alike : ∀ element ∈ elements, HasType Γ element type) :
      HasType Γ (.array elements place) .array

/-- The type of the elements of an array that starts in a given way; `array` if it starts empty. -/
inductive Starts (Γ : Environment) : ArrayInit → ValueType → Prop
  | empty {bracket : Location} : Starts Γ (.values (.array [] bracket)) .array
  | values {elements : List Expr} {type : ValueType} {bracket : Location} (nonempty : elements ≠ [])
      (alike : ∀ element ∈ elements, HasType Γ element type) :
      Starts Γ (.values (.array elements bracket)) type
  | sized {type : TypeName} {size : Nat} : Starts Γ (.sized type size) (.ofTypeName type)

/-- A statement in order, and the environment after it. -/
inductive Declares (Γ : Environment) : Stmt → Environment → Prop
  | scalar {name : String} {type : TypeName} {value : Expr} {place : Location}
      (fresh : Γ.Fresh name) (typed : HasType Γ value (.ofTypeName type)) :
      Declares Γ (.scalar name type value place)
        (Γ.extend name ⟨.ofTypeName type, false, place⟩)
  | array {name : String} {init : ArrayInit} {type : ValueType} {place : Location}
      (fresh : Γ.Fresh name) (starts : Starts Γ init type) :
      Declares Γ (.array name init place) (Γ.extend name ⟨type, true, place⟩)
  | output {content : Interpolation} {place : Location}
      (typed : ∀ e ∈ content.expressions, ∃ type, HasType Γ e type) :
      Declares Γ (.output content place) Γ

/-- Statements in order, each in the environment that the ones before it leave. -/
inductive Derives : Environment → List Stmt → Environment → Prop
  | nil {Γ : Environment} : Derives Γ [] Γ
  | cons {Γ next last : Environment} {stmt : Stmt} {rest : List Stmt}
      (first : Declares Γ stmt next) (more : Derives next rest last) :
      Derives Γ (stmt :: rest) last

namespace HasType

variable {Γ : Environment} {type : ValueType} {place : Location}

theorem identifier_iff {name : String} :
    HasType Γ (.identifier name place) type ↔
      ∃ declared, Γ.lookup name = some declared ∧ declared.type = type := by
  constructor
  · intro h
    cases h with
    | identifier found => exact ⟨_, found, rfl⟩
  · intro h
    obtain ⟨declared, found, same⟩ := h
    rw [← same]
    exact .identifier found

/-- The place of a node has no part in its type, and both sides are typed in one environment. -/
theorem binary_iff {left right : Expr} {operator : Operator} :
    HasType Γ (.binary left operator right place) type ↔
      ∃ leftType rightType, HasType Γ left leftType ∧ HasType Γ right rightType ∧
        Operates operator leftType rightType type := by
  constructor
  · intro h
    cases h with
    | binary hleft hright operates => exact ⟨_, _, hleft, hright, operates⟩
  · intro h
    obtain ⟨_, _, hleft, hright, operates⟩ := h
    exact .binary hleft hright operates

theorem array_iff {elements : List Expr} :
    HasType Γ (.array elements place) type ↔
      type = .array ∧ ∃ shared, ∀ e ∈ elements, HasType Γ e shared := by
  constructor
  · intro h
    cases h with
    | array alike => exact ⟨rfl, _, alike⟩
  · intro h
    obtain ⟨same, _, alike⟩ := h
    rw [same]
    exact .array alike

end HasType

namespace Starts

variable {Γ : Environment} {type : ValueType} {bracket : Location}

theorem sized_iff {name : TypeName} {size : Nat} :
    Starts Γ (.sized name size) type ↔ .ofTypeName name = type := by
  constructor
  · intro h
    cases h with
    | sized => rfl
  · intro same
    rw [← same]
    exact .sized

theorem empty_iff : Starts Γ (.values (.array [] bracket)) type ↔ .array = type := by
  constructor
  · intro h
    cases h with
    | empty => rfl
    | values nonempty _ => exact absurd rfl nonempty
  · intro same
    rw [← same]
    exact .empty

/-- With an element the common type is told; without one it would be any. -/
theorem values_iff {elements : List Expr} (nonempty : elements ≠ []) :
    Starts Γ (.values (.array elements bracket)) type ↔
      ∀ element ∈ elements, HasType Γ element type := by
  constructor
  · intro h
    cases h with
    | empty => exact absurd rfl nonempty
    | values _ alike => exact alike
  · intro alike
    exact .values nonempty alike

/-- Only an array literal starts an array. -/
theorem not_values {value : Expr} (notArray : ∀ elements bracket, value ≠ .array elements bracket) :
    ¬Starts Γ (.values value) type := by
  intro h
  cases h with
  | empty | values _ _ => exact notArray _ _ rfl

end Starts

namespace Declares

variable {Γ next : Environment} {name : String} {place : Location}

/-- A name is declared at most once. -/
theorem fresh {stmt : Stmt} (h : Declares Γ stmt next) (declared : stmt.declared? = some name) :
    Γ.Fresh name := by
  cases h with
  | scalar fresh _ | array fresh _ =>
    cases declared
    exact fresh
  | output _ => cases declared

/-- As an equivalence for each form, a rule can be used from either side without its constructor. -/
theorem scalar_iff {type : TypeName} {value : Expr} :
    Declares Γ (.scalar name type value place) next ↔
      Γ.Fresh name ∧ HasType Γ value (.ofTypeName type) ∧
        Γ.extend name ⟨.ofTypeName type, false, place⟩ = next := by
  constructor
  · intro h
    cases h with
    | scalar fresh typed => exact ⟨fresh, typed, rfl⟩
  · intro h
    obtain ⟨fresh, typed, same⟩ := h
    rw [← same]
    exact .scalar fresh typed

theorem array_iff {init : ArrayInit} :
    Declares Γ (.array name init place) next ↔
      Γ.Fresh name ∧ ∃ type, Starts Γ init type ∧ Γ.extend name ⟨type, true, place⟩ = next := by
  constructor
  · intro h
    cases h with
    | array fresh starts => exact ⟨fresh, _, starts, rfl⟩
  · intro h
    obtain ⟨fresh, _, starts, same⟩ := h
    rw [← same]
    exact .array fresh starts

theorem output_iff {content : Interpolation} :
    Declares Γ (.output content place) next ↔
      (∀ e ∈ content.expressions, ∃ type, HasType Γ e type) ∧ Γ = next := by
  constructor
  · intro h
    cases h with
    | output typed => exact ⟨typed, rfl⟩
  · intro h
    obtain ⟨typed, same⟩ := h
    rw [← same]
    exact .output typed

end Declares

theorem Derives.nil_iff {Γ last : Environment} : Derives Γ [] last ↔ Γ = last := by
  constructor
  · intro h
    cases h with
    | nil => rfl
  · intro same
    rw [same]
    exact .nil

theorem Derives.cons_iff {Γ last : Environment} {stmt : Stmt} {rest : List Stmt} :
    Derives Γ (stmt :: rest) last ↔ ∃ next, Declares Γ stmt next ∧ Derives next rest last := by
  constructor
  · intro h
    cases h with
    | cons first more => exact ⟨_, first, more⟩
  · intro h
    obtain ⟨_, first, more⟩ := h
    exact .cons first more

theorem ValueType.ofTypeName_ne_unknown (type : TypeName) : ofTypeName type ≠ unknown := by
  cases type <;> decide

theorem Operates.ne_unknown {operator : Operator} {left right type : ValueType}
    (h : Operates operator left right type) : type ≠ .unknown := by
  cases h <;> decide

theorem HasType.ne_unknown {Γ : Environment} (known : Γ.Known) {e : Expr} {type : ValueType}
    (h : HasType Γ e type) : type ≠ .unknown := by
  cases h with
  | identifier found => exact known.lookup found
  | binary _ _ operates => exact operates.ne_unknown
  | _ => decide

theorem Starts.ne_unknown {Γ : Environment} (known : Γ.Known) {init : ArrayInit} {type : ValueType}
    (h : Starts Γ init type) : type ≠ .unknown := by
  cases h with
  | empty => exact nofun
  | values nonempty alike =>
    obtain ⟨element, member⟩ := List.exists_mem_of_ne_nil _ nonempty
    exact (alike element member).ne_unknown known
  | sized => exact ValueType.ofTypeName_ne_unknown _

/-- No declaration enters a name without a proper type. -/
theorem Declares.known {Γ next : Environment} (known : Γ.Known) {stmt : Stmt}
    (h : Declares Γ stmt next) : next.Known := by
  cases h with
  | scalar _ _ => exact known.extend (ValueType.ofTypeName_ne_unknown _)
  | array _ starts => exact known.extend (starts.ne_unknown known)
  | output _ => exact known

end Quill
