import Mathlib.Data.List.Forall2
import Quill.Proofs.Typing.System
import Quill.Typing.Check

/-!
The check of an expression decides its type: in an environment of proper types it leaves the
environment alone, and it either finds the one type of the expression and no error, or gives
`unknown` with an error for an expression that has no type.
-/
namespace Quill

def Symbol.declared (symbol : Symbol) : Declared := ⟨symbol.type, symbol.isArray, symbol.location⟩

namespace SymbolTable

/-- The declarations of a table. Which of the names have been read is left out. -/
def environment (table : SymbolTable) : Environment :=
  table.entries.map fun entry => (entry.1, entry.2.declared)

@[simp] theorem environment_empty : empty.environment = [] := rfl

/-- Reading a name changes no type, so expressions are typed in the environment that they start
with. -/
theorem environment_markUsed (table : SymbolTable) (name : String) :
    (table.markUsed name).environment = table.environment := by
  have same : ∀ entry, ((readEntry name entry).1, (readEntry name entry).2.declared) =
      (entry.1, entry.2.declared) := by
    intro entry
    unfold readEntry
    split <;> rfl
  simp only [environment, markUsed, List.map_map, Function.comp_def, same]

/-- What a table with something else for each symbol has for a name. -/
theorem lookup_map {β : Type} (table : SymbolTable) (make : Symbol → β) (name : String) :
    (table.entries.map fun entry => (entry.1, make entry.2)).lookup name =
      (table.get? name).map make := by
  unfold get?
  induction table.entries with
  | nil => rfl
  | cons entry rest ih =>
    obtain ⟨other, symbol⟩ := entry
    simp only [List.map_cons, List.lookup_cons]
    cases name == other with
    | true => rfl
    | false => exact ih

theorem lookup_environment (table : SymbolTable) (name : String) :
    table.environment.lookup name = (table.get? name).map Symbol.declared :=
  table.lookup_map Symbol.declared name

theorem fresh_environment {table : SymbolTable} {name : String} :
    table.environment.Fresh name ↔ name ∉ table.names := by
  simp [Environment.Fresh, environment, names]

end SymbolTable

theorem Operator.mem_arithmetic {operator : Operator} :
    operator ∈ arithmetic ↔ operator.isArithmetic = true := by
  cases operator <;> decide

theorem Operator.mem_comparisons {operator : Operator} :
    operator ∈ comparisons ↔ operator.isArithmetic = false := by
  cases operator <;> decide

theorem ValueType.mem_numeric {type : ValueType} :
    type ∈ [int, float] ↔ type.isNumeric = true := by
  cases type <;> decide

/-- Of the error only that there is one matters here. -/
theorem arithmeticType_eq_ok_iff {operator : Operator} (computes : operator.isArithmetic = true)
    {left right type : ValueType} :
    arithmeticType operator left right = .ok type ↔ Operates operator left right type := by
  have member := Operator.mem_arithmetic.mpr computes
  constructor
  · intro h
    unfold arithmeticType at h
    split at h
    · next text =>
      split at h
      · next sum =>
        subst sum
        cases h
        exact .concat text
      · cases h
    · split at h
      · next integers =>
        obtain ⟨rfl, rfl⟩ := integers
        cases h
        exact .integers member
      · next notIntegers =>
        split at h
        · next numbers =>
          obtain ⟨hleft, hright⟩ := numbers
          cases h
          refine .floats member (ValueType.mem_numeric.mpr hleft)
            (ValueType.mem_numeric.mpr hright) ?_
          revert hleft hright notIntegers
          cases left <;> cases right <;> decide
        · cases h
  · intro h
    cases h with
    | concat text => simp [arithmeticType, text]
    | integers _ => simp [arithmeticType]
    | floats _ hleft hright float =>
      revert hleft hright float
      cases left <;> cases right <;> simp [arithmeticType, ValueType.isNumeric]
    | alike compares => simp [Operator.mem_comparisons.mp compares] at computes
    | numbers compares _ _ => simp [Operator.mem_comparisons.mp compares] at computes

theorem comparisonType_eq_ok_iff {operator : Operator} (compares : operator.isArithmetic = false)
    {left right type : ValueType} :
    comparisonType left right = .ok type ↔ Operates operator left right type := by
  have member := Operator.mem_comparisons.mpr compares
  constructor
  · intro h
    unfold comparisonType at h
    split at h
    · next fit =>
      cases h
      rcases fit with rfl | ⟨hleft, hright⟩
      · exact .alike member
      · exact .numbers member (ValueType.mem_numeric.mpr hleft) (ValueType.mem_numeric.mpr hright)
    · cases h
  · intro h
    cases h with
    | concat _ => cases compares
    | integers computes => simp [Operator.mem_arithmetic.mp computes] at compares
    | floats computes _ _ _ => simp [Operator.mem_arithmetic.mp computes] at compares
    | alike _ => simp [comparisonType]
    | numbers _ hleft hright =>
      simp [comparisonType, ValueType.mem_numeric.mp hleft, ValueType.mem_numeric.mp hright]

/-- An operand of type `unknown` is passed on without a check, so it must be left out. -/
theorem operationType_eq_ok_iff {operator : Operator} {left right type : ValueType}
    (hleft : left ≠ .unknown) (hright : right ≠ .unknown) :
    operationType operator left right = .ok type ↔ Operates operator left right type := by
  have proper : ¬(left = .unknown ∨ right = .unknown) := by simp [hleft, hright]
  rw [operationType, if_neg proper]
  cases kind : operator.isArithmetic with
  | true => exact arithmeticType_eq_ok_iff kind
  | false => exact comparisonType_eq_ok_iff kind

theorem Literal.type_ne_unknown (value : Literal) : value.type ≠ .unknown := by
  cases value <;> exact nofun

/-- What the types of the elements of an array can come to. -/
theorem elementType?_cases (first : ValueType) (rest : List ValueType) :
    (.unknown ∈ first :: rest ∧ elementType? (first :: rest) = some (.ok .unknown)) ∨
    (.unknown ∉ first :: rest ∧ (∀ type ∈ first :: rest, type = first) ∧
      elementType? (first :: rest) = some (.ok first)) ∨
    (.unknown ∉ first :: rest ∧ (¬∀ type ∈ first :: rest, type = first) ∧
      elementType? (first :: rest) = some (.error (.mixedElements first))) := by
  by_cases unknown : .unknown ∈ first :: rest
  · have eq : elementType? (first :: rest) = some (.ok .unknown) := by
      rw [elementType?, if_pos unknown]
    exact .inl ⟨unknown, eq⟩
  · by_cases alike : ∀ type ∈ rest, type = first
    · have eq : elementType? (first :: rest) = some (.ok first) := by
        rw [elementType?, if_neg unknown, if_pos alike]
      exact .inr (.inl ⟨unknown, by simpa using alike, eq⟩)
    · have eq : elementType? (first :: rest) = some (.error (.mixedElements first)) := by
        rw [elementType?, if_neg unknown, if_neg alike]
      exact .inr (.inr ⟨unknown, by simpa using alike, eq⟩)

/-- A verdict on what types a phrase may have: the one type that it has, or `unknown` if it has
none. -/
def Settles (has : ValueType → Prop) (found : ValueType) : Prop :=
  ∀ type, has type ↔ found = type ∧ type ≠ .unknown

namespace Settles

variable {has : ValueType → Prop} {found : ValueType}

/-- The type that is found is a type of the phrase, unless it is `unknown`. -/
theorem proper (h : Settles has found) (known : found ≠ .unknown) : has found :=
  (h found).mpr ⟨rfl, known⟩

theorem ne_unknown {type : ValueType} (h : Settles has found) (typed : has type) :
    found ≠ .unknown := by
  obtain ⟨same, known⟩ := (h type).mp typed
  rw [same]
  exact known

/-- A phrase without a type settles as `unknown`. -/
theorem of_none (untyped : ∀ type, ¬has type) : Settles has .unknown := by
  intro type
  constructor
  · intro typed
    exact absurd typed (untyped type)
  · intro h
    obtain ⟨same, known⟩ := h
    exact absurd same.symm known

/-- With one type at most, that type is what is found. -/
theorem of_iff (known : found ≠ .unknown) (only : ∀ type, has type ↔ found = type) :
    Settles has found := by
  intro type
  rw [only]
  constructor
  · intro same
    exact ⟨same, same ▸ known⟩
  · intro h
    obtain ⟨same, _⟩ := h
    exact same

end Settles

namespace HasType

variable {Γ : Environment}

theorem literal_iff {value : Literal} {place : Location} {type : ValueType} :
    HasType Γ (.literal value place) type ↔ value.type = type := by
  constructor
  · intro h
    cases h <;> rfl
  · intro same
    rw [← same]
    cases value with
    | integer _ => exact .integer
    | float _ => exact .float
    | string _ => exact .string
    | bool _ => exact .bool

/-- An operation on operands that have types has the type that the operator gives it, if any. -/
theorem binary_of_settled {left right : Expr} {l r : ValueType} (operator : Operator)
    (place : Location) (hl : Settles (HasType Γ left) l) (hr : Settles (HasType Γ right) r)
    (knownLeft : l ≠ .unknown) (knownRight : r ≠ .unknown) (type : ValueType) :
    HasType Γ (.binary left operator right place) type ↔ operationType operator l r = .ok type := by
  rw [operationType_eq_ok_iff knownLeft knownRight, binary_iff]
  constructor
  · intro h
    obtain ⟨leftType, rightType, hleft, hright, operates⟩ := h
    rw [((hl leftType).mp hleft).1, ((hr rightType).mp hright).1]
    exact operates
  · intro operates
    exact ⟨l, r, hl.proper knownLeft, hr.proper knownRight, operates⟩

/-- An operation on an operand without a type has none. -/
theorem not_binary {left right : Expr} {l r : ValueType} {operator : Operator} {place : Location}
    (hl : Settles (HasType Γ left) l) (hr : Settles (HasType Γ right) r)
    (unknown : l = .unknown ∨ r = .unknown) (type : ValueType) :
    ¬HasType Γ (.binary left operator right place) type := by
  rw [binary_iff]
  intro h
  obtain ⟨leftType, rightType, hleft, hright, _⟩ := h
  rcases unknown with same | same
  · exact hl.ne_unknown hleft same
  · exact hr.ne_unknown hright same

/-- All elements have a type exactly if their types are all that one. -/
theorem forall_iff {elements : List Expr} {types : List ValueType}
    (h : List.Forall₂ (fun e found => Settles (HasType Γ e) found) elements types)
    (type : ValueType) :
    (∀ e ∈ elements, HasType Γ e type) ↔ ∀ found ∈ types, found = type ∧ type ≠ .unknown := by
  induction h with
  | nil => simp
  | cons first _ ih => rw [List.forall_mem_cons, List.forall_mem_cons, first type, ih]

/-- The elements all have types exactly if none of them has settled as `unknown`. -/
theorem forall_exists_iff {elements : List Expr} {types : List ValueType}
    (h : List.Forall₂ (fun e found => Settles (HasType Γ e) found) elements types) :
    (∀ e ∈ elements, ∃ type, HasType Γ e type) ↔ .unknown ∉ types := by
  induction h with
  | nil => simp
  | @cons e found _ _ first _ ih =>
    have head : (∃ type, HasType Γ e type) ↔ .unknown ≠ found := by
      constructor
      · intro h
        obtain ⟨type, typed⟩ := h
        exact Ne.symm (first.ne_unknown typed)
      · intro known
        exact ⟨found, first.proper (Ne.symm known)⟩
    rw [List.forall_mem_cons, List.mem_cons, not_or, head, ih]

end HasType

namespace Checked

/-- A check tells in `Γ` whether a phrase has a type and which one it is, with an error exactly if
there is none, and declares nothing. -/
structure Decides (Γ : Environment) (has : ValueType → Prop) (checked : Checked ValueType) :
    Prop where
  frame : checked.symbols.environment = Γ
  silent : checked.errors = [] ↔ checked.value ≠ .unknown
  settles : Settles has checked.value

structure DecidesAll (Γ : Environment) (es : List Expr) (checked : Checked (List ValueType)) :
    Prop where
  frame : checked.symbols.environment = Γ
  silent : checked.errors = [] ↔ .unknown ∉ checked.value
  settles : List.Forall₂ (fun e found => Settles (HasType Γ e) found) es checked.value

variable {Γ : Environment} {has : ValueType → Prop} {checked : Checked ValueType}

/-- No error and a type: one of the two ways in which a check can end. -/
theorem Decides.of_known (frame : checked.symbols.environment = Γ) (quiet : checked.errors = [])
    (known : checked.value ≠ .unknown) (only : ∀ type, has type ↔ checked.value = type) :
    checked.Decides Γ has :=
  ⟨frame, iff_of_true quiet known, .of_iff known only⟩

/-- An error and `unknown`: the other one. -/
theorem Decides.of_none (frame : checked.symbols.environment = Γ) (noisy : checked.errors ≠ [])
    (unknown : checked.value = .unknown) (untyped : ∀ type, ¬has type) : checked.Decides Γ has :=
  ⟨frame, iff_of_false noisy (not_not.mpr unknown), unknown ▸ .of_none untyped⟩

end Checked

namespace Expr

variable {Γ : Environment} {symbols : SymbolTable} {place : Location}

theorem literal_decides (same : symbols.environment = Γ) (value : Literal) :
    ((literal value place).check symbols).Decides Γ (HasType Γ (literal value place)) := by
  rw [check]
  exact .of_known same rfl value.type_ne_unknown fun _ => HasType.literal_iff

/-- The table must hold proper types, or a name with the type `unknown` would be found without an
error. -/
theorem identifier_decides (known : Γ.Known) (same : symbols.environment = Γ) (name : String) :
    ((identifier name place).check symbols).Decides Γ (HasType Γ (identifier name place)) := by
  have stored := symbols.lookup_environment name
  rw [same] at stored
  rw [check]
  cases get : symbols.get? name with
  | some symbol =>
    rw [get] at stored
    have frame := (symbols.environment_markUsed name).trans same
    refine .of_known frame rfl (known.lookup stored) fun type => ?_
    rw [HasType.identifier_iff, stored]
    simp [Checked.clean, Symbol.declared]
  | none =>
    rw [get] at stored
    refine .of_none same (List.cons_ne_nil _ _) rfl fun type => ?_
    rw [HasType.identifier_iff, stored]
    simp

theorem binary_decides (known : Γ.Known) {left right : Expr} {operator : Operator}
    (hleft : (left.check symbols).Decides Γ (HasType Γ left))
    (hright : (right.check (left.check symbols).symbols).Decides Γ (HasType Γ right)) :
    ((binary left operator right place).check symbols).Decides Γ
      (HasType Γ (binary left operator right place)) := by
  rw [check]
  generalize left.check symbols = first at hleft hright ⊢
  generalize second_eq : right.check first.symbols = second at hright
  have errors_nil : first.errors ++ second.errors = [] ↔
      ¬(first.value = .unknown ∨ second.value = .unknown) := by
    rw [List.append_eq_nil_iff, hleft.silent, hright.silent, not_or]
  by_cases unknown : first.value = .unknown ∨ second.value = .unknown
  · have outcome : operationType operator first.value second.value = .ok .unknown := by
      rw [operationType, if_pos unknown]
    have noisy := errors_nil.not.mpr (not_not.mpr unknown)
    simp only [Checked.andThen, second_eq, outcome, Checked.ofType, Checked.clean]
    refine .of_none hright.frame ?_ rfl (HasType.not_binary hleft.settles hright.settles unknown)
    simpa using noisy
  · have quiet := errors_nil.mpr unknown
    have typed := HasType.binary_of_settled operator place hleft.settles hright.settles
      (fun h => unknown (.inl h)) (fun h => unknown (.inr h))
    cases outcome : operationType operator first.value second.value with
    | ok type =>
      have proper := ((typed type).mpr outcome).ne_unknown known
      simp only [Checked.andThen, second_eq, outcome, Checked.ofType, Checked.clean]
      refine .of_known hright.frame ?_ proper fun other => ?_
      · simpa using quiet
      · rw [typed, outcome, Except.ok.injEq]
    | error cause =>
      simp only [Checked.andThen, second_eq, outcome, Checked.ofType, Checked.faulty]
      refine .of_none hright.frame ?_ rfl fun other => ?_
      · simp
      · rw [typed, outcome]
        exact nofun

/-- What the elements of an array share is found, with an error in them or at the array exactly if
they share no type. -/
theorem elements_decides {elements : List Expr} {all : Checked (List ValueType)}
    (h : all.DecidesAll Γ elements) (nonempty : elements ≠ []) (place : Location) :
    ∃ outcome, elementType? all.value = some outcome ∧
      (all.andThen fun _ symbols => .ofType symbols place outcome).Decides Γ
        (fun type => ∀ e ∈ elements, HasType Γ e type) := by
  obtain ⟨types, symbols, errors⟩ := all
  obtain ⟨frame, silent, settles⟩ := h
  have typed := HasType.forall_iff settles
  simp only at frame silent
  cases settles with
  | nil => exact absurd rfl nonempty
  | @cons _ first _ rest =>
    rcases elementType?_cases first rest with
      ⟨unknown, eq⟩ | ⟨known, alike, eq⟩ | ⟨known, unlike, eq⟩
    · refine ⟨_, eq, .of_none frame ?_ rfl fun type => ?_⟩
      · have noisy : errors ≠ [] := fun quiet => silent.mp quiet unknown
        simp [Checked.andThen, noisy]
      · rw [typed type]
        intro all
        exact (all _ unknown).2 (all _ unknown).1.symm
    · have knownFirst : first ≠ .unknown := fun same => known (by simp [same])
      refine ⟨_, eq, .of_known frame ?_ knownFirst fun type => ?_⟩
      · simpa [Checked.andThen, Checked.ofType, Checked.clean] using silent.mpr known
      · rw [typed type]
        constructor
        · intro all
          exact (all first (by simp)).1
        · intro same found member
          have equal := (alike found member).trans same
          exact ⟨equal, same ▸ knownFirst⟩
    · refine ⟨_, eq, .of_none frame ?_ rfl fun type => ?_⟩
      · simp [Checked.andThen, Checked.ofType, Checked.faulty]
      · rw [typed type]
        intro all
        have same := (all first (by simp)).1
        exact unlike fun found member => ((all found member).1).trans same.symm

/-- The elements have been checked; what is left is whether their types are the same. -/
theorem array_decides {elements : List Expr}
    (h : (checkAll symbols elements).DecidesAll Γ elements) :
    ((array elements place).check symbols).Decides Γ (HasType Γ (array elements place)) := by
  rw [check]
  generalize checkAll symbols elements = all at h ⊢
  by_cases empty : elements = []
  · subst empty
    obtain ⟨types, after, errors⟩ := all
    obtain ⟨frame, silent, settles⟩ := h
    cases settles
    have quiet : errors = [] := silent.mpr List.not_mem_nil
    refine .of_known frame ?_ nofun fun type => ?_
    · simpa [Checked.andThen, elementType?, Checked.clean] using quiet
    · rw [HasType.array_iff]
      constructor
      · intro h
        obtain ⟨same, _⟩ := h
        exact same.symm
      · intro same
        exact ⟨same.symm, .array, by simp⟩
  · obtain ⟨outcome, eq, decided⟩ := elements_decides h empty place
    simp only [Checked.andThen, eq, Checked.clean, List.append_nil]
    by_cases unknown : (Checked.ofType all.symbols place outcome).value = .unknown
    · rw [if_pos unknown]
      have noisy := mt decided.silent.mp (not_not.mpr unknown)
      refine .of_none decided.frame noisy rfl fun type => ?_
      rw [HasType.array_iff]
      intro h
      obtain ⟨_, _, alike⟩ := h
      exact decided.settles.ne_unknown alike unknown
    · rw [if_neg unknown]
      have quiet := decided.silent.mpr unknown
      have alike := decided.settles.proper unknown
      refine .of_known decided.frame quiet nofun fun type => ?_
      rw [HasType.array_iff]
      constructor
      · intro h
        obtain ⟨same, _⟩ := h
        exact same.symm
      · intro same
        exact ⟨same.symm, _, alike⟩

theorem cons_decides {e : Expr} {rest : List Expr}
    (hfirst : (e.check symbols).Decides Γ (HasType Γ e))
    (hrest : (checkAll (e.check symbols).symbols rest).DecidesAll Γ rest) :
    (checkAll symbols (e :: rest)).DecidesAll Γ (e :: rest) := by
  rw [checkAll]
  refine ⟨hrest.frame, ?_, .cons hfirst.settles hrest.settles⟩
  simp only [Checked.andThen, Checked.clean, List.append_nil, List.append_eq_nil_iff, hfirst.silent,
    hrest.silent, List.mem_cons, not_or]
  rw [ne_comm]

mutual

theorem check_decides (known : Γ.Known) (symbols : SymbolTable) (same : symbols.environment = Γ) :
    (e : Expr) → (e.check symbols).Decides Γ (HasType Γ e)
  | literal value _ => literal_decides same value
  | identifier name _ => identifier_decides known same name
  | binary left _ right _ =>
    have hleft := check_decides known symbols same left
    have hright := check_decides known _ hleft.frame right
    binary_decides known hleft hright
  | array elements _ => array_decides (checkAll_decides known symbols same elements)

theorem checkAll_decides (known : Γ.Known) (symbols : SymbolTable)
    (same : symbols.environment = Γ) :
    (es : List Expr) → (checkAll symbols es).DecidesAll Γ es
  | [] => by
    rw [checkAll]
    exact ⟨same, by simp [Checked.clean], .nil⟩
  | e :: rest =>
    have hfirst := check_decides known symbols same e
    cons_decides hfirst (checkAll_decides known _ hfirst.frame rest)

end

end Expr

end Quill
