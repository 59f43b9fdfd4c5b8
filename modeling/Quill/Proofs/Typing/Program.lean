import Quill.Compilation
import Quill.Proofs.Typing.Expression

/-!
The analysis decides the static semantics. A statement out of order may still enter its name, an
array of unlike elements even with the type `unknown`; but an error comes first, so that the
environment of a run without errors is one of proper types (`Declares.known`).
-/
namespace Quill

/-- A check that has an error exactly if nothing can be derived, and that ends in the environment
that can. Without an error its verdict is good. -/
structure Checked.Follows (derivable : Environment → Prop) (checked : Checked Bool) : Prop where
  good : checked.errors = [] → checked.value = true
  exact (next : Environment) :
    derivable next ↔ checked.errors = [] ∧ checked.symbols.environment = next

namespace Checked.Follows

variable {derivable : Environment → Prop} {checked : Checked Bool}

theorem of_errors (noisy : checked.errors ≠ []) (underivable : ∀ next, ¬derivable next) :
    checked.Follows derivable := by
  refine ⟨fun quiet => absurd quiet noisy, fun next => ?_⟩
  constructor
  · intro h
    exact absurd h (underivable next)
  · intro h
    obtain ⟨quiet, _⟩ := h
    exact absurd quiet noisy

theorem of_iff (quiet : checked.errors = []) (good : checked.value = true)
    (only : ∀ next, derivable next ↔ checked.symbols.environment = next) :
    checked.Follows derivable := by
  refine ⟨fun _ => good, fun next => ?_⟩
  rw [only]
  constructor
  · intro same
    exact ⟨quiet, same⟩
  · intro h
    obtain ⟨_, same⟩ := h
    exact same

/-- After a first check without errors, the second one counts. -/
theorem andThen {α : Type} {first : Checked α} {second : α → SymbolTable → Checked Bool}
    (quiet : first.errors = []) (h : (second first.value first.symbols).Follows derivable) :
    (first.andThen second).Follows derivable := by
  have errors : (first.andThen second).errors = (second first.value first.symbols).errors := by
    simp [Checked.andThen, quiet]
  refine ⟨fun silent => h.good (errors ▸ silent), fun next => ?_⟩
  rw [errors]
  exact h.exact next

/-- An error of the first check stays. -/
theorem andThen_of_errors {α : Type} {first : Checked α}
    {second : α → SymbolTable → Checked Bool} (noisy : first.errors ≠ [])
    (underivable : ∀ next, ¬derivable next) : (first.andThen second).Follows derivable := by
  apply of_errors _ underivable
  intro quiet
  exact noisy (List.append_eq_nil_iff.mp quiet).1

/-- A verdict that stays good can be replaced. -/
theorem clean (h : checked.Follows derivable) (verdict : Bool → Bool)
    (good : verdict true = true) :
    (checked.andThen fun value symbols => .clean (verdict value) symbols).Follows derivable := by
  have errors : (checked.andThen fun value symbols => .clean (verdict value) symbols).errors =
      checked.errors := List.append_nil _
  refine ⟨fun quiet => ?_, fun next => ?_⟩
  · rw [errors] at quiet
    exact (congrArg verdict (h.good quiet)).trans good
  · rw [errors]
    exact h.exact next

theorem congr {other : Environment → Prop} (h : checked.Follows derivable)
    (same : ∀ next, other next ↔ derivable next) : checked.Follows other :=
  ⟨h.good, fun next => (same next).trans (h.exact next)⟩

end Checked.Follows

theorem SymbolTable.contains_eq_true_iff {table : SymbolTable} {name : String} :
    table.contains name = true ↔ ¬table.environment.Fresh name := by
  rw [fresh_environment, not_not]
  simp [contains]

/-- A fresh name is entered behind the others. -/
theorem SymbolTable.enter_follows {table : SymbolTable} {name : String} {type : ValueType}
    {isArray : Bool} {place : Location} {derivable : Environment → Prop}
    (fresh : table.environment.Fresh name)
    (only : ∀ next, derivable next ↔
      table.environment.extend name ⟨type, isArray, place⟩ = next) :
    (table.enter name (.unread type isArray place)).Follows derivable := by
  have free := fresh_environment.mp fresh
  rw [enter, declare?, dif_neg free]
  apply Checked.Follows.of_iff rfl rfl
  intro next
  rw [only]
  simp [Checked.clean, environment, Environment.extend, Symbol.declared, Symbol.unread]

/-- A check of how an array starts finds the type of its elements, or has an error. -/
structure Checked.Begins (Γ : Environment) (init : ArrayInit)
    (checked : Checked (Option ValueType)) : Prop where
  frame : checked.symbols.environment = Γ
  found : checked.errors = [] → checked.value.isSome
  exact (type : ValueType) : Starts Γ init type ↔ checked.errors = [] ∧ checked.value = some type

namespace ArrayInit

variable {Γ : Environment} {symbols : SymbolTable} {place : Location}

theorem empty_begins (same : symbols.environment = Γ) (bracket : Location) :
    ((values (.array [] bracket)).check symbols place).Begins Γ (values (.array [] bracket)) := by
  have empty : (values (.array [] bracket)).check symbols place = .clean (some .array) symbols := by
    rw [check, Expr.checkAll]
    rfl
  rw [empty]
  refine ⟨same, fun _ => rfl, fun type => ?_⟩
  rw [Starts.empty_iff]
  simp [Checked.clean]

theorem values_begins (known : Γ.Known) (same : symbols.environment = Γ) {elements : List Expr}
    (nonempty : elements ≠ []) (bracket : Location) :
    ((values (.array elements bracket)).check symbols place).Begins Γ
      (values (.array elements bracket)) := by
  have all := Expr.checkAll_decides known symbols same elements
  rw [check]
  generalize Expr.checkAll symbols elements = checked at all ⊢
  obtain ⟨outcome, eq, decided⟩ := Expr.elements_decides all nonempty bracket
  simp only [Checked.andThen, eq, Checked.clean, List.append_nil]
  refine ⟨decided.frame, fun _ => rfl, fun type => ?_⟩
  refine (Starts.values_iff nonempty).trans ((decided.settles type).trans ?_)
  rw [Option.some.injEq]
  constructor
  · intro h
    obtain ⟨found, proper⟩ := h
    exact ⟨decided.silent.mpr (found ▸ proper), found⟩
  · intro h
    obtain ⟨quiet, found⟩ := h
    exact ⟨found, found ▸ decided.silent.mp quiet⟩

theorem other_begins (known : Γ.Known) (same : symbols.environment = Γ) {value : Expr}
    (notArray : ∀ elements bracket, value ≠ .array elements bracket) :
    ((values value).check symbols place).Begins Γ (values value) := by
  have decided := value.check_decides known symbols same
  rw [check]
  case x_1 => exact notArray
  generalize value.check symbols = checked at decided ⊢
  by_cases unknown : checked.value = .unknown
  · have noisy := mt decided.silent.mp (not_not.mpr unknown)
    simp only [Checked.andThen, if_pos unknown, Checked.clean, List.append_nil]
    refine ⟨decided.frame, fun quiet => absurd quiet noisy, fun type => ?_⟩
    exact iff_of_false (Starts.not_values notArray) fun h => noisy h.1
  · simp only [Checked.andThen, if_neg unknown, Checked.faulty]
    refine ⟨decided.frame, by simp, fun type => ?_⟩
    exact iff_of_false (Starts.not_values notArray) (by simp)

theorem check_begins (known : Γ.Known) (same : symbols.environment = Γ) (init : ArrayInit) :
    (init.check symbols place).Begins Γ init := by
  cases init with
  | sized type size =>
    refine ⟨same, fun _ => rfl, fun found => ?_⟩
    rw [Starts.sized_iff]
    simp [check, Checked.clean]
  | values value =>
    by_cases literal : ∃ elements bracket, value = .array elements bracket
    · obtain ⟨elements, bracket, rfl⟩ := literal
      by_cases empty : elements = []
      · rw [empty]
        exact empty_begins same bracket
      · exact values_begins known same empty bracket
    · simp only [not_exists] at literal
      exact other_begins known same literal

end ArrayInit

namespace Stmt

variable {Γ : Environment} {symbols : SymbolTable}

/-- A name that is taken is no name to declare. -/
theorem taken_follows (same : symbols.environment = Γ) {name : String} {stmt : Stmt}
    (declared : stmt.declared? = some name) (taken : symbols.contains name = true)
    (cause : SemanticCause) (place : Location) :
    (Checked.faulty false symbols cause place).Follows (Declares Γ stmt) := by
  apply Checked.Follows.of_errors (List.cons_ne_nil _ _)
  intro next h
  exact SymbolTable.contains_eq_true_iff.mp taken (same ▸ h.fresh declared)

theorem scalar_follows (known : Γ.Known) (same : symbols.environment = Γ) (name : String)
    (type : TypeName) (value : Expr) (place : Location) :
    ((scalar name type value place).check symbols).Follows
      (Declares Γ (scalar name type value place)) := by
  rw [check]
  by_cases taken : symbols.contains name = true
  · rw [if_pos taken]
    exact taken_follows same rfl taken _ _
  rw [if_neg taken]
  have fresh := not_not.mp (mt SymbolTable.contains_eq_true_iff.mpr taken)
  have decided := value.check_decides known symbols same
  generalize value.check symbols = checked at decided ⊢
  have declares_iff : ∀ next, Declares Γ (scalar name type value place) next ↔
      checked.value = .ofTypeName type ∧ Γ.extend name ⟨.ofTypeName type, false, place⟩ = next := by
    intro next
    rw [Declares.scalar_iff, decided.settles, ← same]
    simp [fresh, ValueType.ofTypeName_ne_unknown]
  by_cases unknown : checked.value = .unknown
  · have noisy := mt decided.silent.mp (not_not.mpr unknown)
    apply Checked.Follows.andThen_of_errors noisy
    intro next h
    exact ValueType.ofTypeName_ne_unknown type (((declares_iff next).mp h).1.symm.trans unknown)
  · apply Checked.Follows.andThen (decided.silent.mpr unknown)
    by_cases fits : checked.value = .ofTypeName type
    · have noMismatch : ¬(checked.value ≠ .unknown ∧ checked.value ≠ .ofTypeName type) := by
        simp [fits]
      rw [if_neg noMismatch]
      refine SymbolTable.enter_follows ?_ fun next => ?_
      · rw [decided.frame, ← same]
        exact fresh
      · rw [declares_iff, decided.frame]
        simp [fits]
    · rw [if_pos ⟨unknown, fits⟩]
      apply Checked.Follows.of_errors (List.cons_ne_nil _ _)
      intro next h
      exact fits ((declares_iff next).mp h).1

theorem array_follows (known : Γ.Known) (same : symbols.environment = Γ) (name : String)
    (init : ArrayInit) (place : Location) :
    ((array name init place).check symbols).Follows (Declares Γ (array name init place)) := by
  rw [check]
  by_cases taken : symbols.contains name = true
  · rw [if_pos taken]
    exact taken_follows same rfl taken _ _
  rw [if_neg taken]
  have fresh := not_not.mp (mt SymbolTable.contains_eq_true_iff.mpr taken)
  have begins : (init.check symbols place).Begins Γ init := init.check_begins known same
  generalize init.check symbols place = checked at begins ⊢
  by_cases quiet : checked.errors = []
  · obtain ⟨type, found⟩ := Option.isSome_iff_exists.mp (begins.found quiet)
    apply Checked.Follows.andThen quiet
    rw [found]
    refine SymbolTable.enter_follows ?_ fun next => ?_
    · rw [begins.frame, ← same]
      exact fresh
    · rw [Declares.array_iff, begins.frame]
      constructor
      · intro h
        obtain ⟨_, other, starts, env⟩ := h
        have value := ((begins.exact other).mp starts).2
        rw [found, Option.some.injEq] at value
        rw [value]
        exact env
      · intro env
        exact ⟨same ▸ fresh, type, (begins.exact type).mpr ⟨quiet, found⟩, env⟩
  · apply Checked.Follows.andThen_of_errors quiet
    intro next h
    obtain ⟨-, type, starts, -⟩ := Declares.array_iff.mp h
    exact quiet ((begins.exact type).mp starts).1

theorem output_follows (known : Γ.Known) (same : symbols.environment = Γ)
    (content : Interpolation) (place : Location) :
    ((output content place).check symbols).Follows (Declares Γ (output content place)) := by
  have all := Expr.checkAll_decides known symbols same content.expressions
  have typed := HasType.forall_exists_iff all.settles
  rw [check]
  generalize Expr.checkAll symbols content.expressions = checked at all typed ⊢
  by_cases unknown : .unknown ∈ checked.value
  · apply Checked.Follows.andThen_of_errors (mt all.silent.mp (not_not.mpr unknown))
    intro next h
    exact typed.mp (Declares.output_iff.mp h).1 unknown
  · apply Checked.Follows.andThen (all.silent.mpr unknown)
    apply Checked.Follows.of_iff rfl (decide_eq_true unknown)
    intro next
    rw [Declares.output_iff]
    constructor
    · intro h
      obtain ⟨_, env⟩ := h
      exact all.frame.trans env
    · intro env
      exact ⟨typed.mpr unknown, all.frame.symm.trans env⟩

/-- One statement, in an environment of proper types. -/
theorem check_follows (known : Γ.Known) (same : symbols.environment = Γ) (stmt : Stmt) :
    (stmt.check symbols).Follows (Declares Γ stmt) := by
  cases stmt with
  | scalar name type value place => exact scalar_follows known same name type value place
  | array name init place => exact array_follows known same name init place
  | output content place => exact output_follows known same content place

/-- A run. Its errors are those of its statements, so a run without errors stays in environments of
proper types, and at an error nothing can be derived any more. -/
theorem checkAll_follows (known : Γ.Known) (same : symbols.environment = Γ) (stmts : List Stmt) :
    (checkAll symbols stmts).Follows (Derives Γ stmts) := by
  induction stmts generalizing Γ symbols with
  | nil =>
    apply Checked.Follows.of_iff rfl rfl
    intro last
    rw [Derives.nil_iff, ← same]
    rfl
  | cons stmt rest ih =>
    have first := check_follows known same stmt
    rw [checkAll]
    by_cases quiet : (stmt.check symbols).errors = []
    · have step := (first.exact _).mpr ⟨quiet, rfl⟩
      have more := ih (step.known known) rfl
      have both : ((stmt.check symbols).value && true) = true := by rw [first.good quiet]; rfl
      refine .andThen quiet ((more.clean _ both).congr fun last => ?_)
      rw [Derives.cons_iff]
      constructor
      · intro h
        obtain ⟨next, other, derived⟩ := h
        rw [((first.exact next).mp other).2]
        exact derived
      · intro derived
        exact ⟨_, step, derived⟩
    · apply Checked.Follows.andThen_of_errors quiet
      intro last h
      obtain ⟨next, other, -⟩ := Derives.cons_iff.mp h
      exact quiet ((first.exact next).mp other).1

/-- An array of unlike elements passes with an error, and reading it fails without one. -/
example :
    let one := Expr.literal (.integer 1) .start
    let text := Expr.literal (.string "s") .start
    let unlike := array "xs" (.values (.array [one, text] .start)) .start
    let read := output ⟨[], [.identifier "xs" .start], .start⟩ .start
    (checkAll .empty [unlike]).value = true ∧ (checkAll .empty [unlike]).errors.length = 1 ∧
      (checkAll .empty [unlike, read]).value = false ∧
      (checkAll .empty [unlike, read]).errors.length = 1 := by
  decide

end Stmt

/-- The analysis of a program on its own. It is good exactly if it has no error. -/
theorem Analysis.ofProgram_follows (program : Program) :
    ((ofProgram .empty program).ok = true ↔ (ofProgram .empty program).errors = []) ∧
      ∀ Γ, Derives [] program.statements Γ ↔
        (ofProgram .empty program).errors = [] ∧
          (ofProgram .empty program).symbols.environment = Γ := by
  have run := Stmt.checkAll_follows Environment.known_nil SymbolTable.environment_empty
    program.statements
  refine ⟨?_, run.exact⟩
  simp only [ofProgram, Bool.and_eq_true, List.isEmpty_iff]
  constructor
  · intro h
    obtain ⟨_, quiet⟩ := h
    exact quiet
  · intro quiet
    exact ⟨run.good quiet, quiet⟩

namespace Sink

/-- What an analysis adds to a sink: its errors, then its warnings. -/
theorem records_analyse (sink : Sink) (symbols : SymbolTable) (program : Program) :
    (sink.analyse symbols program).2.records = sink.records ++
      (((Analysis.ofProgram symbols program).errors.map SemanticError.diagnostic).map sink.stamp ++
        ((Analysis.ofProgram symbols program).unused.map unusedWarning).map sink.stamp) := by
  simp only [analyse, pushAll, List.append_assoc]
  rfl

theorem isError_of_mem_errors (errors : List SemanticError) :
    ∀ d ∈ errors.map SemanticError.diagnostic, d.isError = true := by
  intro d member
  obtain ⟨error, -, rfl⟩ := List.mem_map.mp member
  rfl

theorem isError_of_mem_warnings (entries : List (String × Symbol)) :
    ∀ d ∈ entries.map unusedWarning, d.isError = false := by
  intro d member
  obtain ⟨entry, -, rfl⟩ := List.mem_map.mp member
  rfl

theorem warnings_harmless (sink : Sink) (entries : List (String × Symbol)) {d : Diagnostic}
    (member : d ∈ (entries.map unusedWarning).map sink.stamp) : d.isError = false := by
  obtain ⟨warning, among, rfl⟩ := List.mem_map.mp member
  exact isError_of_mem_warnings entries warning among

/-- The analysis of a program on its own, for any sink: it is good exactly if it adds no error, and
exactly if a derivation exists; and then the declared names are those of the derivation, with the
same types and in the same order. -/
theorem analyse_decides (sink : Sink) (program : Program) :
    (∃ added, (sink.analyse .empty program).2.records = sink.records ++ added ∧
      ((sink.analyse .empty program).1.ok = true ↔ ∀ d ∈ added, d.isError = false)) ∧
    ((sink.analyse .empty program).1.ok = true ↔ ∃ Γ, Derives [] program.statements Γ) ∧
    ∀ Γ, Derives [] program.statements Γ ↔
      (sink.analyse .empty program).1.ok = true ∧
        (sink.analyse .empty program).1.symbols.environment = Γ := by
  obtain ⟨good, exact⟩ := Analysis.ofProgram_follows program
  have verdict : (sink.analyse .empty program).1 = Analysis.ofProgram .empty program := rfl
  rw [verdict]
  refine ⟨⟨_, sink.records_analyse .empty program, ?_⟩, ?_, ?_⟩
  · rw [good]
    constructor
    · intro quiet d member
      rw [quiet, List.map_nil, List.map_nil, List.nil_append] at member
      exact warnings_harmless sink _ member
    · intro harmless
      apply List.eq_nil_iff_forall_not_mem.mpr
      intro error member
      have raised := harmless (sink.stamp error.diagnostic)
        (List.mem_append_left _ (List.mem_map_of_mem (List.mem_map_of_mem member)))
      cases raised
  · rw [good]
    constructor
    · intro quiet
      exact ⟨_, (exact _).mpr ⟨quiet, rfl⟩⟩
    · intro h
      obtain ⟨Γ, derived⟩ := h
      exact ((exact Γ).mp derived).1
  · intro Γ
    rw [good]
    exact exact Γ

end Sink

end Quill
